import Mathlib.Data.List.TakeWhile
import Provenance.Document
import Provenance.Json.Parse
import Provenance.Json.Text

/-!
# Documents read back from their texts

A document without fractions is read back from both of its texts (`Json.Plain`). A text spells the tokens of
its document (`Json.Spells`): blanks may stand between them, and a numeral or a word ends before a character
that cannot continue it. The tokens make the document again (`Json.Makes`). Main statements:
`parse?_compact`, `parse?_pretty`.
-/

namespace Provenance

namespace Text.Digits

/-- Only the numeral of zero begins with a zero. -/
theorem head?_write {n : Nat} (h : 0 < n) : (write n).head? ≠ some '0' := by
  induction n using write.induct with
  | case1 n hlt =>
    have hchar : ∀ d < 10, 0 < d → char d ≠ '0' := by decide
    rw [write, if_pos hlt, List.head?_cons]
    exact fun heq => hchar n hlt h (Option.some.inj heq)
  | case2 n hge ih =>
    obtain ⟨c, cs, hcs⟩ := List.exists_cons_of_ne_nil (write_ne_nil (n / 10))
    rw [hcs] at ih
    rw [write, if_neg hge, hcs]
    exact ih (by omega)

end Text.Digits

namespace Json

open Text.Digits

variable {v value : Json} {cs cs' rest read : List Char} {ts ts' : List Token} {c : Char} {token : Token}

/-! ## Numerals -/

theorem takeDigits_write (n : Nat) : takeDigits (write n) = (write n, []) := by
  unfold takeDigits
  rw [List.takeWhile_eq_self_iff.2 isDigit_of_mem_write, List.dropWhile_eq_nil_iff.2 isDigit_of_mem_write]

theorem ofMagnitude?_write (negative : Bool) (n : Nat) :
    ofMagnitude? negative (write n) = some (ofDigits negative (write n)) := by
  unfold ofMagnitude?
  rw [takeDigits_write]
  refine if_neg ?_
  rintro (hnil | ⟨hhead, hlength⟩)
  · exact write_ne_nil n hnil
  · by_cases hn : n = 0
    · subst hn
      rw [write, if_pos (by decide)] at hlength
      exact hlength rfl
    · exact head?_write (Nat.pos_of_ne_zero hn) hhead

theorem ofNumeral?_intChars {n : Int} (hle : leastInt ≤ n) (hlt : n < intBound) :
    ofNumeral? (intChars n) = some (.int n) := by
  unfold intChars
  by_cases hn : n < 0
  · rw [if_pos hn]
    change ofMagnitude? true _ = _
    rw [ofMagnitude?_write, ofDigits, read_write, if_pos rfl, if_neg (by omega)]
    congr 2
    omega
  · rw [if_neg hn]
    have hplain : ofNumeral? (write n.natAbs) = ofMagnitude? false (write n.natAbs) := by
      unfold ofNumeral?
      split
      · next cs hcs =>
        have hminus := isDigit_of_mem_write '-' (hcs ▸ List.mem_cons_self)
        cases hminus
      · rfl
    rw [hplain, ofMagnitude?_write, ofDigits, read_write, if_neg Bool.false_ne_true, if_pos (by omega)]
    congr 2
    omega

/-! ## Scanning -/

theorem scan?_skip {scan : Scan} (next : Scan) (h : step? scan c = some (next, [])) (rest : List Char) :
    scan? scan (c :: rest) = scan? next rest := by
  rw [scan?, h]
  simp

theorem step?_between (c : Char) : step? .between c = start? c := rfl

/-- What follows a numeral or a word does not continue it. -/
def Ends (rest : List Char) : Prop := ∀ c ∈ rest.head?, inNumeral c = false ∧ inWord c = false

theorem Ends.nil : Ends [] := nofun

theorem Ends.cons (h : inNumeral c = false ∧ inWord c = false) : Ends (c :: rest) := by
  intro c' hc'
  cases hc'
  exact h

/-- A leaf that is complete stands in front of what is scanned after it. -/
theorem scan?_leaf {scan : Scan} (hfinish : finish? scan = some [.leaf value])
    (hstep : ∀ c ∈ rest.head?, step? scan c = (start? c).map fun next => (next.1, .leaf value :: next.2)) :
    scan? scan rest = (scan? .between rest).map (.leaf value :: ·) := by
  cases rest with
  | nil =>
    rw [scan?, scan?, hfinish]
    rfl
  | cons c rest =>
    rw [scan?, scan?, hstep c rfl, step?]
    cases start? c with
    | none => rfl
    | some next =>
      simp only [Option.map_some, Option.bind_eq_bind, Option.bind_some]
      cases scan? next.1 rest <;> rfl

theorem scan?_numeral (h : Ends rest) (hread : ofNumeral? read.reverse = some value) :
    scan? (.numeral read) rest = (scan? .between rest).map (.leaf value :: ·) := by
  refine scan?_leaf (by rw [finish?, hread]; rfl) fun c hc => ?_
  rw [step?, (h c hc).1, hread]
  cases start? c <;> rfl

theorem scan?_word (h : Ends rest) (hread : ofWord? read.reverse = some value) :
    scan? (.word read) rest = (scan? .between rest).map (.leaf value :: ·) := by
  refine scan?_leaf (by rw [finish?, hread]; rfl) fun c hc => ?_
  rw [step?, (h c hc).2, hread]
  cases start? c <;> rfl

/-- Characters that continue a token are read into it. -/
theorem scan?_append {scan : List Char → Scan}
    (hstep : ∀ c ∈ cs, ∀ read, step? (scan read) c = some (scan (c :: read), [])) :
    scan? (scan read) (cs ++ rest) = scan? (scan (cs.reverse ++ read)) rest := by
  induction cs generalizing read with
  | nil => rfl
  | cons c cs ih =>
    obtain ⟨hc, hcs⟩ := List.forall_mem_cons.1 hstep
    rw [List.cons_append, scan?_skip _ (hc read), ih hcs, List.reverse_cons, List.append_assoc]
    rfl

theorem start?_of_inNumeral (h : inNumeral c = true) : start? c = some (.numeral [c], []) := by
  have hne : ∀ other, inNumeral other = false → c ≠ other := by
    rintro other hother rfl
    exact Bool.false_ne_true (hother.symm.trans h)
  unfold start? isSpace
  simp only [hne ' ' (by decide), hne '\n' (by decide), hne '\t' (by decide), hne '\r' (by decide),
    hne '[' (by decide), hne ']' (by decide), hne '\x7b' (by decide), hne '\x7d' (by decide),
    hne ':' (by decide), hne ',' (by decide), hne '"' (by decide), decide_false, Bool.or_self,
    Bool.false_eq_true, if_false, h, if_true]

/-! ## Texts -/

theorem scan?_unit {n : Nat} (h : n < Nat.pow 16 4) :
    scan? (.unit read true none []) (writeHex 4 n ++ rest) = scan? (afterUnit read true none n) rest := by
  have hread := readHex?_writeHex h
  have hlength := writeHex_length 4 n
  generalize writeHex 4 n = digits at hread hlength
  match digits, hlength with
  | [a, b, c, d], _ =>
    have hvalue : ∃ va vb vc vd, hexValue? a = some va ∧ hexValue? b = some vb ∧ hexValue? c = some vc ∧
        hexValue? d = some vd := by
      simp only [readHex?, List.foldlM_cons, Option.bind_eq_bind, Option.bind_eq_some_iff,
        Option.map_eq_some_iff] at hread
      obtain ⟨_, ⟨va, ha, -⟩, _, ⟨vb, hb, -⟩, _, ⟨vc, hc, -⟩, _, ⟨vd, hd, -⟩, -⟩ := hread
      exact ⟨va, vb, vc, vd, ha, hb, hc, hd⟩
    obtain ⟨va, vb, vc, vd, ha, hb, hc, hd⟩ := hvalue
    simp only [List.cons_append, List.nil_append]
    rw [scan?_skip (.unit read true none [a]) (by rw [step?, ha]; rfl),
      scan?_skip (.unit read true none [a, b]) (by rw [step?, hb]; rfl),
      scan?_skip (.unit read true none [a, b, c]) (by rw [step?, hc]; rfl),
      scan?_skip (afterUnit read true none n)]
    rw [step?, hd, List.cons_append, List.cons_append, List.cons_append, List.nil_append, hread]
    rfl

theorem scan?_escapeChar (read : List Char) (c : Char) (rest : List Char) :
    scan? (.text read true) (escapeChar c ++ rest) = scan? (.text (c :: read) true) rest := by
  have hletter : ∀ letter, letter ≠ 'u' → ofEscape? letter = some c →
      scan? (.text read true) (['\\', letter] ++ rest) = scan? (.text (c :: read) true) rest := by
    intro letter hu hletter
    rw [List.cons_append, scan?_skip (.escape read true none) rfl, List.cons_append]
    refine scan?_skip _ ?_ rest
    rw [step?, if_neg hu, hletter]
    rfl
  have hof : ∀ n, c.toNat = n → c = Char.ofNat n := by
    rintro n rfl
    exact (Char.ofNat_toNat c).symm
  unfold escapeChar
  split_ifs with hquote hslash hn hr ht hb hf hcontrol
  · exact hletter '"' (by decide) (by rw [hquote]; rfl)
  · exact hletter '\\' (by decide) (by rw [hslash]; rfl)
  · exact hletter 'n' (by decide) (by rw [hn]; rfl)
  · exact hletter 'r' (by decide) (by rw [hr]; rfl)
  · exact hletter 't' (by decide) (by rw [ht]; rfl)
  · exact hletter 'b' (by decide) (by rw [hof 8 hb]; rfl)
  · exact hletter 'f' (by decide) (by rw [hof 12 hf]; rfl)
  · rw [List.cons_append, scan?_skip (.escape read true none) rfl, List.cons_append,
      scan?_skip (.unit read true none []) rfl,
      scan?_unit (Nat.lt_of_lt_of_le hcontrol (by decide))]
    have hafter : afterUnit read true none c.toNat = .text (c :: read) true := by
      unfold afterUnit
      dsimp only
      rw [if_neg (by omega), if_neg (by omega), Char.ofNat_toNat]
    rw [hafter]
  · refine scan?_skip _ ?_ rest
    rw [step?, stepText?, if_neg hquote, if_neg hslash, if_neg hcontrol]

theorem scan?_text (read : List Char) (s rest : List Char) :
    scan? (.text read true) (s.flatMap escapeChar ++ '"' :: rest) =
      (scan? .between rest).map (.leaf (.text (String.ofList (read.reverse ++ s))) :: ·) := by
  induction s generalizing read with
  | nil =>
    rw [List.append_nil]
    change (scan? .between rest).bind _ = _
    cases scan? .between rest <;> rfl
  | cons c s ih =>
    rw [List.flatMap_cons, List.append_assoc, scan?_escapeChar, ih, List.reverse_cons, List.append_assoc]
    rfl

/-! ## Spelling -/

/-- Characters are those of some tokens: in front of whatever ends the last of them, just these tokens are
scanned. -/
def Spells (cs : List Char) (ts : List Token) : Prop :=
  ∀ rest, Ends rest → scan? .between (cs ++ rest) = (scan? .between rest).map (ts ++ ·)

namespace Spells

theorem append (h : Spells cs ts) (h' : Spells cs' ts') (hends : ∀ rest, Ends rest → Ends (cs' ++ rest)) :
    Spells (cs ++ cs') (ts ++ ts') := by
  intro rest hrest
  rw [List.append_assoc, h _ (hends rest hrest), h' rest hrest, Option.map_map]
  congr 1
  funext later
  exact (List.append_assoc ts ts' later).symm

/-- A mark in front. -/
theorem mark (hc : start? c = some (.between, [token])) (h : Spells cs ts) :
    Spells (c :: cs) (token :: ts) := by
  intro rest hrest
  rw [List.cons_append, scan?, step?, hc, Option.bind_eq_bind, Option.bind_some]
  dsimp only
  rw [h rest hrest]
  cases scan? .between rest <;> rfl

/-- A blank in front. -/
theorem blank (hc : isSpace c = true) (h : Spells cs ts) : Spells (c :: cs) ts := by
  intro rest hrest
  rw [List.cons_append, scan?_skip .between (by rw [step?, start?, if_pos hc]), h rest hrest]

theorem nil : Spells [] [] := by
  intro rest _
  rw [List.nil_append]
  cases scan? .between rest <;> rfl

theorem newline (level : Nat) (h : Spells cs ts) : Spells (newline level ++ cs) ts := by
  refine blank rfl ?_
  induction 2 * level with
  | zero => exact h
  | succ n ih => exact blank rfl ih

theorem numeral {n : Int} (hle : leastInt ≤ n) (hlt : n < intBound) :
    Spells (intChars n) [.leaf (.int n)] := by
  intro rest hrest
  have hread := ofNumeral?_intChars hle hlt
  have hall : ∀ c ∈ intChars n, inNumeral c = true := by
    have hdigits : ∀ c ∈ write n.natAbs, inNumeral c = true := fun c hc => by
      rw [inNumeral, isDigit_of_mem_write c hc]
      rfl
    unfold intChars
    split
    · exact List.forall_mem_cons.2 ⟨rfl, hdigits⟩
    · exact hdigits
  cases hcs : intChars n with
  | nil =>
    rw [hcs] at hread
    cases hread
  | cons c cs =>
    rw [hcs] at hread hall
    obtain ⟨hc, hcs⟩ := List.forall_mem_cons.1 hall
    rw [List.cons_append, scan?_skip _ ((step?_between c).trans (start?_of_inNumeral hc)),
      scan?_append fun c hc read => by rw [step?, if_pos (hcs c hc)]]
    refine scan?_numeral hrest ?_
    rw [List.reverse_append, List.reverse_reverse]
    exact hread

theorem word (hc : start? c = some (.word [c], [])) (hcs : cs.all inWord = true)
    (hread : ofWord? (c :: cs) = some value) : Spells (c :: cs) [.leaf value] := by
  intro rest hrest
  rw [List.cons_append, scan?_skip _ ((step?_between c).trans hc),
    scan?_append fun c hc read => by rw [step?, if_pos (List.all_eq_true.1 hcs c hc)]]
  refine scan?_word hrest ?_
  rw [List.reverse_append, List.reverse_reverse]
  exact hread

theorem quote (s : String) : Spells (quote s) [.leaf (.text s)] := by
  intro rest _
  unfold Json.quote
  rw [List.cons_append, scan?_skip (.text [] true) rfl, List.append_assoc, List.cons_append,
    List.nil_append, scan?_text, List.reverse_nil, List.nil_append, String.ofList_toList]
  rfl

end Spells

/-! ## Plain documents -/

/-- A document without fractions, whose integers can be held and in which everything can be read. -/
inductive Plain : Json → Prop
  | null : Plain .null
  | bool (b : Bool) : Plain (.bool b)
  | int {n : Int} (le : leastInt ≤ n) (lt : n < intBound) : Plain (.int n)
  | text (s : String) : Plain (.text s)
  | array {items : List Json} (all : ∀ item ∈ items, Plain item) : Plain (.array items)
  | object {fields : List (String × Json)} (all : ∀ field ∈ fields, Plain field.2) : Plain (.object fields)

@[simp] theorem plain_null : Plain .null := .null

@[simp] theorem plain_bool (b : Bool) : Plain (.bool b) := .bool b

@[simp] theorem plain_text (s : String) : Plain (.text s) := .text s

@[simp] theorem plain_int_iff {n : Int} : Plain (.int n) ↔ leastInt ≤ n ∧ n < intBound := by
  constructor
  · rintro ⟨⟩
    exact ⟨‹_›, ‹_›⟩
  · exact fun h => .int h.1 h.2

@[simp] theorem plain_array_iff {items : List Json} : Plain (.array items) ↔ ∀ item ∈ items, Plain item := by
  constructor
  · rintro ⟨⟩
    assumption
  · exact .array

@[simp] theorem plain_object_iff {fields : List (String × Json)} :
    Plain (.object fields) ↔ ∀ field ∈ fields, Plain field.2 := by
  constructor
  · rintro ⟨⟩
    assumption
  · exact .object

mutual

/-- The tokens of a document. -/
def tokens : Json → List Token
  | .array items => .openArray :: (itemTokens items ++ [.closeArray])
  | .object fields => .openObject :: (fieldTokens fields ++ [.closeObject])
  | value => [.leaf value]

def itemTokens : List Json → List Token
  | [] => []
  | [item] => item.tokens
  | item :: rest => item.tokens ++ .comma :: itemTokens rest

def fieldTokens : List (String × Json) → List Token
  | [] => []
  | [(name, value)] => .leaf (.text name) :: .colon :: value.tokens
  | (name, value) :: rest =>
    .leaf (.text name) :: .colon :: (value.tokens ++ .comma :: fieldTokens rest)

end

theorem Spells.leaf (h : v.Plain) (harray : v.toItems? = none) (hobject : v.toObject? = none) :
    Spells v.leafChars [.leaf v] := by
  cases h with
  | null => exact .word rfl rfl rfl
  | bool b =>
    cases b
    · exact .word rfl rfl rfl
    · exact .word rfl rfl rfl
  | int le lt => exact .numeral le lt
  | text s => exact .quote s
  | array => cases harray
  | object => cases hobject

theorem spells_itemChars {items : List Json} (h : ∀ item ∈ items, Spells item.chars item.tokens) :
    Spells (itemChars items) (itemTokens items) := by
  induction items with
  | nil => exact .nil
  | cons item rest ih =>
    obtain ⟨hitem, hrest⟩ := List.forall_mem_cons.1 h
    cases rest with
    | nil => exact hitem
    | cons next rest => exact hitem.append (.mark rfl (ih hrest)) fun _ _ => .cons (by decide)

theorem spells_fieldChars {fields : List (String × Json)}
    (h : ∀ field ∈ fields, Spells field.2.chars field.2.tokens) :
    Spells (fieldChars fields) (fieldTokens fields) := by
  induction fields with
  | nil => exact .nil
  | cons field rest ih =>
    obtain ⟨hfield, hrest⟩ := List.forall_mem_cons.1 h
    cases rest with
    | nil => exact (Spells.quote field.1).append (.mark rfl hfield) fun _ _ => .cons (by decide)
    | cons next rest =>
      refine (Spells.quote field.1).append (.mark rfl ?_) fun _ _ => .cons (by decide)
      exact hfield.append (.mark rfl (ih hrest)) fun _ _ => .cons (by decide)

theorem Plain.spells_chars (h : v.Plain) : Spells v.chars v.tokens := by
  induction h with
  | array _ ih =>
    exact .mark rfl ((spells_itemChars ih).append (.mark rfl .nil) fun _ _ => .cons (by decide))
  | object _ ih =>
    exact .mark rfl ((spells_fieldChars ih).append (.mark rfl .nil) fun _ _ => .cons (by decide))
  | null => exact .leaf .null rfl rfl
  | bool b => exact .leaf (.bool b) rfl rfl
  | int le lt => exact .leaf (.int le lt) rfl rfl
  | text s => exact .leaf (.text s) rfl rfl

theorem spells_prettyItems {items : List Json} {level : Nat}
    (h : ∀ item ∈ items, Spells (item.prettyChars level) item.tokens) :
    Spells (prettyItems level items) (itemTokens items) := by
  induction items with
  | nil => exact .nil
  | cons item rest ih =>
    obtain ⟨hitem, hrest⟩ := List.forall_mem_cons.1 h
    cases rest with
    | nil => exact .newline level hitem
    | cons next rest =>
      exact (Spells.newline level hitem).append (.mark rfl (ih hrest)) fun _ _ => .cons (by decide)

theorem spells_prettyFields {fields : List (String × Json)} {level : Nat}
    (h : ∀ field ∈ fields, Spells (field.2.prettyChars level) field.2.tokens) :
    Spells (prettyFields level fields) (fieldTokens fields) := by
  induction fields with
  | nil => exact .nil
  | cons field rest ih =>
    obtain ⟨hfield, hrest⟩ := List.forall_mem_cons.1 h
    have hname := Spells.newline level (Spells.quote field.1)
    cases rest with
    | nil => exact hname.append (.mark rfl (.blank rfl hfield)) fun _ _ => .cons (by decide)
    | cons next rest =>
      refine hname.append (.mark rfl (.blank rfl ?_)) fun _ _ => .cons (by decide)
      exact hfield.append (.mark rfl (ih hrest)) fun _ _ => .cons (by decide)

theorem Plain.spells_prettyChars (h : v.Plain) (level : Nat) :
    Spells (v.prettyChars level) v.tokens := by
  induction h generalizing level with
  | @array items _ ih =>
    cases items with
    | nil => exact .mark rfl (.mark rfl .nil)
    | cons item rest =>
      refine .mark rfl ?_
      rw [List.append_assoc]
      exact (spells_prettyItems fun item hitem => ih item hitem (level + 1)).append
        (.newline level (.mark rfl .nil)) fun _ _ => .cons (by decide)
  | @object fields _ ih =>
    cases fields with
    | nil => exact .mark rfl (.mark rfl .nil)
    | cons field rest =>
      refine .mark rfl ?_
      rw [List.append_assoc]
      exact (spells_prettyFields fun field hfield => ih field hfield (level + 1)).append
        (.newline level (.mark rfl .nil)) fun _ _ => .cons (by decide)
  | null => exact .leaf .null rfl rfl
  | bool b => exact .leaf (.bool b) rfl rfl
  | int le lt => exact .leaf (.int le lt) rfl rfl
  | text s => exact .leaf (.text s) rfl rfl

/-! ## Tokens put together -/

open Assembly

/-- Tokens are those of a value: where a value may come, they put it in its place. -/
def Makes (ts : List Token) (v : Json) : Prop :=
  ∀ openings rest, (ts ++ rest).foldlM step ⟨openings, .value⟩ =
    (place v openings).bind fun p => rest.foldlM step p

theorem makes_itemTokens {items : List Json} (h : ∀ item ∈ items, Makes item.tokens item) (hne : items ≠ [])
    (held : List Json) (outer : List Unclosed) (rest : List Token) :
    (itemTokens items ++ .closeArray :: rest).foldlM step ⟨.array held :: outer, .value⟩ =
      (place (.array (held.reverse ++ items)) outer).bind fun p => rest.foldlM step p := by
  induction items generalizing held with
  | nil => exact absurd rfl hne
  | cons item items ih =>
    obtain ⟨hitem, hitems⟩ := List.forall_mem_cons.1 h
    cases items with
    | nil =>
      change (item.tokens ++ _).foldlM _ _ = _
      rw [hitem]
      change (place (.array (item :: held).reverse) outer).bind _ = _
      rw [List.reverse_cons]
    | cons next items =>
      change (item.tokens ++ .comma :: itemTokens (next :: items) ++ _).foldlM _ _ = _
      rw [List.append_assoc, hitem]
      change (itemTokens (next :: items) ++ _).foldlM _ _ = _
      rw [ih hitems (List.cons_ne_nil _ _), List.reverse_cons, List.append_assoc]
      rfl

theorem makes_fieldTokens {fields : List (String × Json)} (h : ∀ field ∈ fields, Makes field.2.tokens field.2)
    (hne : fields ≠ []) (held : List (String × Json)) (outer : List Unclosed) (rest : List Token) :
    (fieldTokens fields ++ .closeObject :: rest).foldlM step ⟨.object held true :: outer, .name⟩ =
      (place (.object (held.reverse ++ fields)) outer).bind fun p => rest.foldlM step p := by
  induction fields generalizing held with
  | nil => exact absurd rfl hne
  | cons field fields ih =>
    obtain ⟨hfield, hfields⟩ := List.forall_mem_cons.1 h
    cases fields with
    | nil =>
      change (field.2.tokens ++ _).foldlM step ⟨.field held true field.1 :: outer, .value⟩ = _
      rw [hfield]
      change (place (.object (field :: held).reverse) outer).bind _ = _
      rw [List.reverse_cons]
    | cons next fields =>
      change (field.2.tokens ++ .comma :: fieldTokens (next :: fields) ++ _).foldlM step
        ⟨.field held true field.1 :: outer, .value⟩ = _
      rw [List.append_assoc, hfield]
      change (fieldTokens (next :: fields) ++ _).foldlM step
        ⟨.object (field :: held) true :: outer, .name⟩ = _
      rw [ih hfields (List.cons_ne_nil _ _), List.reverse_cons, List.append_assoc]
      rfl

/-- Where the first item of an array may come, a value may come. -/
theorem foldlM_firstItem (v : Json) (openings : List Unclosed) (rest : List Token) :
    (v.tokens ++ rest).foldlM step ⟨openings, .firstItem⟩ =
      (v.tokens ++ rest).foldlM step ⟨openings, .value⟩ := by
  cases v <;> rfl

theorem Plain.makes_tokens (h : v.Plain) : Makes v.tokens v := by
  intro openings rest
  induction h generalizing openings rest with
  | @array items _ ih =>
    cases items with
    | nil => rfl
    | cons item items =>
      have hitems : ∀ next ∈ item :: items, Makes next.tokens next := fun next hnext => ih next hnext
      have hitems := makes_itemTokens hitems (List.cons_ne_nil _ _) [] openings rest
      refine Eq.trans ?_ hitems
      change ((itemTokens (item :: items) ++ [Token.closeArray]) ++ rest).foldlM step
        ⟨.array [] :: openings, .firstItem⟩ = _
      rw [List.append_assoc]
      cases items with
      | nil => exact foldlM_firstItem item _ _
      | cons next items =>
        change ((item.tokens ++ _) ++ _).foldlM _ _ = ((item.tokens ++ _) ++ _).foldlM _ _
        rw [List.append_assoc, List.append_assoc]
        exact foldlM_firstItem item _ _
  | @object fields _ ih =>
    cases fields with
    | nil => rfl
    | cons field fields =>
      have hfields : ∀ next ∈ field :: fields, Makes next.2.tokens next.2 := fun next hnext => ih next hnext
      have hfields := makes_fieldTokens hfields (List.cons_ne_nil _ _) [] openings rest
      refine Eq.trans ?_ hfields
      change ((fieldTokens (field :: fields) ++ [Token.closeObject]) ++ rest).foldlM step
        ⟨.object [] true :: openings, .firstName⟩ = _
      rw [List.append_assoc]
      cases fields <;> rfl
  | _ => rfl

theorem Plain.ofTokens?_tokens (h : v.Plain) : ofTokens? v.tokens = some v := by
  have hmakes := h.makes_tokens [] []
  rw [List.append_nil] at hmakes
  rw [ofTokens?, hmakes]
  rfl

theorem parse?_of_spells (h : v.Plain) (hcs : Spells cs v.tokens) : parse? (String.ofList cs) = some v := by
  have hscan := hcs [] .nil
  rw [List.append_nil, show scan? .between [] = some [] from rfl, Option.map_some, List.append_nil] at hscan
  rw [parse?, String.toList_ofList, tokens?, hscan]
  exact h.ofTokens?_tokens

/-- A plain document is read back from its text in one line. -/
theorem Plain.parse?_compact (h : v.Plain) : parse? v.compact = some v :=
  parse?_of_spells h h.spells_chars

/-- A plain document is read back from its text over several lines. -/
theorem Plain.parse?_pretty (h : v.Plain) : parse? v.pretty = some v :=
  parse?_of_spells h (h.spells_prettyChars 0)

end Json

end Provenance
