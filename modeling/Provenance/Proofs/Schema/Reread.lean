import Provenance.Loading
import Provenance.Proofs.Json.Reparse
import Provenance.Proofs.Schema.Literals
import Provenance.Schema.Encoding

/-!
# Schemas read back from their canonical texts

A plain document is read, its fields sorted, if it nests within the limit of documents
(`Json.Plain.read?_eq_some`, `Json.Plain.read?_eq_none`). So the canonical text of a schema that does is read
back, in a document of the format and in one that was held back as a whole alike (`Document.Faithful`). Only
zeros lose their sign, so schemas with one canonical text are equal. Main statement:
`Schema.ofJson_canonical_eq`.
-/

namespace Provenance

namespace Json

variable {v : Json} {depth : Nat}

mutual

/-- How many arrays and objects stand inside each other in a document. -/
def nesting : Json → Nat
  | .array items => nestingOfItems items + 1
  | .object fields => nestingOfFields fields + 1
  | _ => 0

def nestingOfItems : List Json → Nat
  | [] => 0
  | item :: rest => max item.nesting (nestingOfItems rest)

def nestingOfFields : List (String × Json) → Nat
  | [] => 0
  | (_, value) :: rest => max value.nesting (nestingOfFields rest)

end

theorem nestingOfItems_le_iff {items : List Json} : nestingOfItems items ≤ depth ↔
    ∀ item ∈ items, item.nesting ≤ depth := by
  induction items with
  | nil => exact ⟨fun _ => nofun, fun _ => Nat.zero_le _⟩
  | cons item rest ih => rw [nestingOfItems, Nat.max_le, ih, List.forall_mem_cons]

theorem nestingOfFields_le_iff {fields : List (String × Json)} : nestingOfFields fields ≤ depth ↔
    ∀ field ∈ fields, field.2.nesting ≤ depth := by
  induction fields with
  | nil => exact ⟨fun _ => nofun, fun _ => Nat.zero_le _⟩
  | cons field rest ih => rw [nestingOfFields, Nat.max_le, ih, List.forall_mem_cons]

theorem nesting_array_le_succ_iff {items : List Json} : (Json.array items).nesting ≤ depth + 1 ↔
    ∀ item ∈ items, item.nesting ≤ depth := by
  rw [nesting, Nat.add_le_add_iff_right, nestingOfItems_le_iff]

theorem nesting_array_le_iff {items : List Json} : (Json.array items).nesting ≤ depth ↔
    ∃ inner, depth = inner + 1 ∧ ∀ item ∈ items, item.nesting ≤ inner := by
  cases depth with
  | zero => simp [nesting]
  | succ depth =>
    rw [nesting_array_le_succ_iff]
    simp

theorem nesting_object_le_iff {fields : List (String × Json)} : (Json.object fields).nesting ≤ depth ↔
    ∃ inner, depth = inner + 1 ∧ ∀ field ∈ fields, field.2.nesting ≤ inner := by
  rw [nesting]
  cases depth with
  | zero => simp
  | succ depth =>
    rw [Nat.add_le_add_iff_right, nestingOfFields_le_iff]
    simp

theorem readItems?_eq_some {items : List Json} (h : ∀ item ∈ items, item.read? depth = some item.sorted) :
    readItems? depth items = some (sortedItems items) := by
  induction items with
  | nil => rfl
  | cons item rest ih =>
    obtain ⟨hitem, hrest⟩ := List.forall_mem_cons.1 h
    rw [readItems?, hitem, ih hrest]
    rfl

theorem readFields?_eq_some {fields : List (String × Json)}
    (h : ∀ field ∈ fields, field.2.read? depth = some field.2.sorted) :
    readFields? depth fields = some (sortedFields fields) := by
  induction fields with
  | nil => rfl
  | cons field rest ih =>
    obtain ⟨hfield, hrest⟩ := List.forall_mem_cons.1 h
    rw [readFields?, hfield, ih hrest]
    rfl

/-- A plain document that nests within the limit is read, its fields sorted. -/
theorem Plain.read?_eq_some (h : v.Plain) (hdepth : v.nesting ≤ depth) : v.read? depth = some v.sorted := by
  induction h generalizing depth with
  | array _ ih =>
    obtain ⟨inner, rfl, hitems⟩ := nesting_array_le_iff.1 hdepth
    rw [Json.read?, readItems?_eq_some fun item hitem => ih item hitem (hitems item hitem)]
    rfl
  | object _ ih =>
    obtain ⟨inner, rfl, hfields⟩ := nesting_object_le_iff.1 hdepth
    rw [Json.read?, readFields?_eq_some fun field hfield => ih field hfield (hfields field hfield)]
    rfl
  | _ => rfl

/-- A plain document can be held if it nests within the limit. -/
theorem Plain.isSome_read? (h : v.Plain) (hdepth : v.nesting ≤ depth) : (v.read? depth).isSome := by
  rw [h.read?_eq_some hdepth]
  rfl

theorem readItems?_eq_none {items : List Json} {item : Json} (hitem : item ∈ items)
    (h : item.read? depth = none) : readItems? depth items = none := by
  induction items with
  | nil => cases hitem
  | cons first rest ih =>
    rw [readItems?]
    rcases List.mem_cons.1 hitem with rfl | hrest
    · rw [h]
      rfl
    · rw [ih hrest]
      cases first.read? depth <;> rfl

theorem readFields?_eq_none {fields : List (String × Json)} {field : String × Json} (hfield : field ∈ fields)
    (h : field.2.read? depth = none) : readFields? depth fields = none := by
  induction fields with
  | nil => cases hfield
  | cons first rest ih =>
    rw [readFields?]
    rcases List.mem_cons.1 hfield with rfl | hrest
    · rw [h]
      rfl
    · rw [ih hrest]
      cases first.2.read? depth <;> rfl

/-- A plain document that nests deeper than the limit is not read. -/
theorem Plain.read?_eq_none (h : v.Plain) (hdepth : depth < v.nesting) : v.read? depth = none := by
  induction h generalizing depth with
  | @array items _ ih =>
    cases depth with
    | zero => rfl
    | succ inner =>
      have hitems := mt nesting_array_le_succ_iff.2 (Nat.not_le.2 hdepth)
      push Not at hitems
      obtain ⟨item, hitem, hdeep⟩ := hitems
      rw [Json.read?, readItems?_eq_none hitem (ih item hitem hdeep)]
      rfl
  | @object fields _ ih =>
    cases depth with
    | zero => rfl
    | succ inner =>
      have hfields := mt nestingOfFields_le_iff.2 (Nat.not_le.2 (Nat.lt_of_succ_lt_succ hdepth))
      push Not at hfields
      obtain ⟨field, hfield, hdeep⟩ := hfields
      rw [Json.read?, readFields?_eq_none hfield (ih field hfield hdeep)]
      rfl
  | _ => exact absurd hdepth (Nat.not_lt_zero depth)

end Json

/-! ## Documents held in a format -/

namespace Document

/-- A format answers for the documents embedded in it as the documents themselves do. -/
structure Faithful {α : Type} [Document α] (embed : Json → α) : Prop where
  missing : ∀ v, isMissing (embed v) = v.isNull
  bool : ∀ v, bool? (embed v) = v.toBool?
  int : ∀ v, int? (embed v) = v.toInt?
  text : ∀ v, text? (embed v) = v.toText?
  decimal : ∀ v, decimal? (embed v) = v.toDecimal?
  items : ∀ v, items? (embed v) = v.toItems?.map (List.map embed)
  fields : ∀ v, fields? (embed v) = v.toObject?.map (List.map fun field => (field.1, embed field.2))
  variant : ∀ v, variant? (embed v) = v.toVariant?.map fun variant => (variant.1, variant.2.map embed)
  variantFields : ∀ v, variantFields? (embed v) =
    v.toObject?.map (List.map fun field => (field.1, embed field.2))

theorem faithful_id : Faithful (fun v : Json => v) where
  missing _ := rfl
  bool _ := rfl
  int _ := rfl
  text _ := rfl
  decimal _ := rfl
  items v := by simp [items?]
  fields v := by simp [fields?]
  variant v := by simp [variant?]
  variantFields v := by simp [variantFields?]

theorem faithful_held : Faithful Held.mk where
  missing _ := rfl
  bool _ := rfl
  int _ := rfl
  text _ := rfl
  decimal _ := rfl
  items _ := rfl
  fields _ := rfl
  variant _ := rfl
  variantFields _ := rfl

/-- The fields of a record that has just the fields asked for. -/
theorem named?_eq {α : Type} {names : List String} {fields : List (String × α)}
    (h : fields.map Prod.fst = names) (hnodup : names.Nodup) :
    named? names fields = some (fields.map fun field => some field.2) := by
  subst h
  have hknown : (fields.map Prod.fst).filter ((fields.map Prod.fst).contains ·) = fields.map Prod.fst :=
    List.filter_eq_self.2 fun name hname => List.contains_iff_mem.2 hname
  unfold named?
  simp only [hknown]
  rw [if_pos hnodup, List.map_map]
  exact congrArg some (List.map_congr_left fun field hfield => List.lookup_of_mem hnodup hfield)

namespace Faithful

variable {α : Type} [Document α] {embed : Json → α} (hf : Faithful embed)
include hf

omit [Document α] hf in
theorem named? {names : List String} {fields : List (String × Json)} (h : fields.map Prod.fst = names)
    (hnodup : names.Nodup) :
    named? names (fields.map fun field => (field.1, embed field.2)) =
      some (fields.map fun field => some (embed field.2)) := by
  rw [named?_eq (by rwa [List.map_map]) hnodup, List.map_map]
  rfl

theorem record? {names : List String} {fields : List (String × Json)} (h : fields.map Prod.fst = names)
    (hnodup : names.Nodup) :
    record? names (embed (.object fields)) = some (fields.map fun field => some (embed field.2)) := by
  unfold Document.record?
  rw [hf.fields]
  exact Faithful.named? h hnodup

theorem variantRecord? {names : List String} {fields : List (String × Json)}
    (h : fields.map Prod.fst = names) (hnodup : names.Nodup) :
    variantRecord? names (embed (.object fields)) = some (fields.map fun field => some (embed field.2)) := by
  unfold Document.variantRecord?
  rw [hf.variantFields]
  exact Faithful.named? h hnodup

theorem text? (s : String) : text? (embed (.text s)) = some s := hf.text _

theorem name? (depth : Nat) (s : String) : name? depth (embed (.text s)) = some s := by
  rw [Document.name?, hf.variant]
  rfl

theorem variant? (kind : String) (content : Json) :
    variant? (embed (.object [(kind, content)])) = some (kind, some (embed content)) := hf.variant _

theorem list? {β γ : Type} {read : α → Option γ} {encode : β → Json} {g : β → γ} {xs : List β}
    (h : ∀ x ∈ xs, read (embed (encode x)) = some (g x)) :
    list? read (embed (.array (xs.map encode))) = some (xs.map g) := by
  rw [Document.list?, hf.items]
  change ((xs.map encode).map embed).mapM read = _
  induction xs with
  | nil => rfl
  | cons x rest ih =>
    obtain ⟨hx, hrest⟩ := List.forall_mem_cons.1 h
    rw [List.map_cons, List.map_cons, List.mapM_cons, hx, ih hrest]
    rfl

end Faithful

end Document

open Document

section

variable {α : Type} [Document α] {embed : Json → α} (hf : Faithful embed) {depth : Nat}
include hf

theorem Scalar.read?_encode (v : Scalar) (h : v.encode.nesting ≤ depth) :
    Scalar.read? depth (embed v.encode) = some v.unsigned := by
  cases v with
  | null =>
    unfold Scalar.read? encode
    rw [hf.variant]
    rfl
  | bool b =>
    obtain ⟨inner, rfl, -⟩ := Json.nesting_object_le_iff.1 h
    unfold Scalar.read? encode
    rw [hf.variant?]
    simp [hf.bool, Json.toBool?, unsigned]
  | int i =>
    obtain ⟨inner, rfl, -⟩ := Json.nesting_object_le_iff.1 h
    unfold Scalar.read? encode
    rw [hf.variant?]
    simp [hf.int, Json.toInt?, unsigned, Integer.ofInt?_val]
  | decimal d =>
    obtain ⟨inner, rfl, -⟩ := Json.nesting_object_le_iff.1 h
    unfold Scalar.read? encode
    rw [hf.variant?]
    simp [hf.decimal, Json.toDecimal?, unsigned, d.read?_text]
  | text s =>
    obtain ⟨inner, rfl, -⟩ := Json.nesting_object_le_iff.1 h
    unfold Scalar.read? encode
    rw [hf.variant?]
    simp [hf.text?, unsigned]

theorem ColumnName.read?_encode (name : ColumnName) (h : name.encode.nesting ≤ depth) :
    ColumnName.read? depth (embed name.encode) = some name := by
  obtain ⟨inner, rfl, -⟩ := Json.nesting_object_le_iff.1 h
  have hrecord : record? ["table", "column"] (embed name.encode) = _ := hf.record? rfl (by decide)
  unfold ColumnName.read?
  simp [hrecord, hf.text?]

theorem CubeColumn.read?_encode (name : CubeColumn) (h : name.encode.nesting ≤ depth) :
    CubeColumn.read? depth (embed name.encode) = some name := by
  obtain ⟨inner, rfl, -⟩ := Json.nesting_object_le_iff.1 h
  have hrecord : record? ["cube", "column"] (embed name.encode) = _ := hf.record? rfl (by decide)
  unfold CubeColumn.read?
  simp [hrecord, hf.text?]

omit [Document α] hf in
theorem Expr.encodeAll_eq (args : List Expr) : encodeAll args = args.map encode := by
  induction args with
  | nil => rfl
  | cons e rest ih => rw [encodeAll, ih, List.map_cons]

omit [Document α] hf in
theorem Expr.isNull_encode (e : Expr) : e.encode.isNull = false := by cases e <;> rfl

/-- An expression is read back wherever it fits. -/
theorem Expr.read?_encode (e : Expr) (h : e.encode.nesting ≤ depth) :
    Expr.read? depth (embed e.encode) = some (e.mapLiterals Scalar.unsigned) := by
  induction e generalizing depth with
  | literal v =>
    obtain ⟨inner, rfl, hv⟩ := Json.nesting_object_le_iff.1 h
    have hv := Scalar.read?_encode hf v (hv _ List.mem_cons_self)
    cases inner with
    | zero =>
      unfold Expr.read? encode
      rw [hf.variant?]
      simp [hv, mapLiterals]
    | succ inner =>
      unfold Expr.read? encode
      rw [hf.variant?]
      simp [hv, mapLiterals]
  | column name =>
    obtain ⟨inner, rfl, hname⟩ := Json.nesting_object_le_iff.1 h
    have hname := hname _ List.mem_cons_self
    obtain ⟨inner, rfl, -⟩ := Json.nesting_object_le_iff.1 hname
    unfold Expr.read? encode
    rw [hf.variant?]
    simp [ColumnName.read?_encode hf name hname, mapLiterals]
  | speculative name =>
    obtain ⟨inner, rfl, hname⟩ := Json.nesting_object_le_iff.1 h
    have hname := hname _ List.mem_cons_self
    obtain ⟨inner, rfl, -⟩ := Json.nesting_object_le_iff.1 hname
    unfold Expr.read? encode
    rw [hf.variant?]
    simp [CubeColumn.read?_encode hf name hname, mapLiterals]
  | member hierarchy ancestor e ih =>
    obtain ⟨inner, rfl, hcontent⟩ := Json.nesting_object_le_iff.1 h
    obtain ⟨inner, rfl, hparts⟩ := Json.nesting_object_le_iff.1 (hcontent _ List.mem_cons_self)
    have he := ih (hparts ("of", e.encode) (by simp))
    have hrecord : variantRecord? ["hierarchy", "member", "of"] (embed (.object
        [("hierarchy", .text hierarchy), ("member", .text ancestor), ("of", e.encode)])) = _ :=
      hf.variantRecord? rfl (by decide)
    unfold Expr.read? encode
    rw [hf.variant?]
    simp [hrecord, hf.text?, he, mapLiterals]
  | unary op e ih =>
    obtain ⟨inner, rfl, hcontent⟩ := Json.nesting_object_le_iff.1 h
    obtain ⟨inner, rfl, hparts⟩ := Json.nesting_object_le_iff.1 (hcontent _ List.mem_cons_self)
    have he := ih (hparts ("arg", e.encode) (by simp))
    have hrecord : variantRecord? ["op", "arg"] (embed (.object
        [("op", .text op.name), ("arg", e.encode)])) = _ := hf.variantRecord? rfl (by decide)
    unfold Expr.read? encode
    rw [hf.variant?]
    simp [hrecord, hf.name?, op.ofName?_name, he, mapLiterals]
  | binary op l r ihl ihr =>
    obtain ⟨inner, rfl, hcontent⟩ := Json.nesting_object_le_iff.1 h
    obtain ⟨inner, rfl, hparts⟩ := Json.nesting_object_le_iff.1 (hcontent _ List.mem_cons_self)
    have hl := ihl (hparts ("lhs", l.encode) (by simp))
    have hr := ihr (hparts ("rhs", r.encode) (by simp))
    have hrecord : variantRecord? ["op", "lhs", "rhs"] (embed (.object
        [("op", .text op.name), ("lhs", l.encode), ("rhs", r.encode)])) = _ :=
      hf.variantRecord? rfl (by decide)
    unfold Expr.read? encode
    rw [hf.variant?]
    simp [hrecord, hf.name?, op.ofName?_name, hl, hr, mapLiterals]
  | call function args ih =>
    obtain ⟨inner, rfl, hcontent⟩ := Json.nesting_object_le_iff.1 h
    obtain ⟨inner, rfl, hparts⟩ := Json.nesting_object_le_iff.1 (hcontent _ List.mem_cons_self)
    have hargs := hparts ("args", .array (encodeAll args)) (by simp)
    rw [encodeAll_eq] at hargs
    obtain ⟨inner, rfl, hitems⟩ := Json.nesting_array_le_iff.1 hargs
    have hread := hf.list? fun e he => ih e he (hitems _ (List.mem_map_of_mem he))
    have hrecord : variantRecord? ["function", "args"] (embed (.object
        [("function", .text function), ("args", .array (args.map encode))])) = _ :=
      hf.variantRecord? rfl (by decide)
    unfold Expr.read? encode
    rw [hf.variant?, encodeAll_eq]
    simp [hrecord, hf.text?, hread, mapLiterals, mapAllLiterals_eq]
  | aggregate func e ih =>
    obtain ⟨inner, rfl, hcontent⟩ := Json.nesting_object_le_iff.1 h
    obtain ⟨inner, rfl, hparts⟩ := Json.nesting_object_le_iff.1 (hcontent _ List.mem_cons_self)
    have he := ih (hparts ("arg", e.encode) (by simp))
    have hrecord : variantRecord? ["func", "arg"] (embed (.object
        [("func", .text func.name), ("arg", e.encode)])) = _ := hf.variantRecord? rfl (by decide)
    unfold Expr.read? encode
    rw [hf.variant?]
    simp [hrecord, hf.name?, func.ofName?_name, hf.missing, e.isNull_encode, he, mapLiterals]
  | aggregateRows func =>
    obtain ⟨inner, rfl, hcontent⟩ := Json.nesting_object_le_iff.1 h
    obtain ⟨inner, rfl, -⟩ := Json.nesting_object_le_iff.1 (hcontent _ List.mem_cons_self)
    have hrecord : variantRecord? ["func", "arg"] (embed (.object
        [("func", .text func.name), ("arg", .null)])) = _ := hf.variantRecord? rfl (by decide)
    unfold Expr.read? encode
    rw [hf.variant?]
    simp [hrecord, hf.name?, func.ofName?_name, hf.missing, Json.isNull, mapLiterals]

theorem JoinKey.read?_encode (k : JoinKey) (h : k.encode.nesting ≤ depth) :
    JoinKey.read? depth (embed k.encode) = some k := by
  obtain ⟨inner, rfl, hparts⟩ := Json.nesting_object_le_iff.1 h
  have hleft := ColumnName.read?_encode hf k.left (hparts ("left", k.left.encode) (by simp))
  have hrecord : record? ["left", "right"] (embed k.encode) = _ := hf.record? rfl (by decide)
  unfold JoinKey.read?
  simp [hrecord, hleft, hf.text?]

theorem JoinStep.read?_encode (s : JoinStep) (h : s.encode.nesting ≤ depth) :
    JoinStep.read? depth (embed s.encode) = some s := by
  obtain ⟨inner, rfl, hparts⟩ := Json.nesting_object_le_iff.1 h
  obtain ⟨inner, rfl, hkeys⟩ :=
    Json.nesting_array_le_iff.1 (hparts ("on", .array (s.on.map JoinKey.encode)) (by simp))
  have hon := hf.list? fun k hk => JoinKey.read?_encode hf k (hkeys _ (List.mem_map_of_mem hk))
  have hrecord : record? ["table", "kind", "on"] (embed s.encode) = _ := hf.record? rfl (by decide)
  unfold JoinStep.read?
  simp [hrecord, hf.text?, hf.name?, s.kind.ofName?_name, hon]

end

/-! ## Plain documents -/

theorem Scalar.plain_encode (v : Scalar) : v.encode.Plain := by
  cases v with
  | int i =>
    have hle := i.le_val
    have hlt := i.val_lt
    simp [encode, Json.leastInt, Json.intBound]
    omega
  | _ => simp [encode]

theorem Expr.plain_encode (e : Expr) : e.encode.Plain := by
  induction e with
  | literal v => simp [encode, v.plain_encode]
  | column name => simp [encode, ColumnName.encode]
  | speculative name => simp [encode, CubeColumn.encode]
  | member _ _ e ih | unary _ e ih | aggregate _ e ih => simp [encode, ih]
  | binary _ l r ihl ihr => simp [encode, ihl, ihr]
  | call _ args ih => simpa [encode, encodeAll_eq] using ih
  | aggregateRows func => simp [encode]

theorem plain_encodeText? (text : Option String) : (encodeText? text).Plain := by
  cases text <;> simp [encodeText?]

theorem Approach.plain_encode (a : Approach) : a.encode.Plain := by
  cases a <;>
    simp [encode, Expr.plain_encode, JoinStep.encode, JoinKey.encode, ColumnName.encode]

theorem Schema.plain_encode (s : Schema) : s.encode.Plain := by
  simp [encode, TableDefinition.encode, FieldDefinition.encode, HierarchyDefinition.encode,
    HierarchyLink.encode, DerivedDefinition.encode, FunctionDefinition.encode, plain_encodeText?,
    Expr.plain_encode, Approach.plain_encode]

/-! ## Parts of a schema -/

theorem DataType.ofName?_name (type : DataType) : ofName? type.name = some type := by cases type <;> decide

/-- A text that may be missing is read back. -/
theorem optionalText?_encodeText? (text : Option String) :
    optionalText? (some (encodeText? text)) = some text := by
  cases text <;> rfl

section

variable {depth : Nat}

theorem FieldDefinition.read?_encode (f : FieldDefinition) (h : f.encode.nesting ≤ depth) :
    FieldDefinition.read? depth f.encode = some f := by
  obtain ⟨inner, rfl, -⟩ := Json.nesting_object_le_iff.1 h
  have hrecord : record? ["name", "type"] f.encode = _ := faithful_id.record? rfl (by decide)
  unfold FieldDefinition.read? DataType.read?
  simp [hrecord, faithful_id.text?, faithful_id.name?, f.type.ofName?_name]

theorem TableDefinition.read?_encode (t : TableDefinition) (h : t.encode.nesting ≤ depth) :
    TableDefinition.read? depth t.encode = some t := by
  obtain ⟨inner, rfl, hparts⟩ := Json.nesting_object_le_iff.1 h
  obtain ⟨inner, rfl, hitems⟩ := Json.nesting_array_le_iff.1
    (hparts ("fields", .array (t.fields.map FieldDefinition.encode)) (by simp))
  have hfields := faithful_id.list? fun f hf =>
    FieldDefinition.read?_encode f (hitems _ (List.mem_map_of_mem hf))
  have hrecord : record? ["name", "fields"] t.encode = _ := faithful_id.record? rfl (by decide)
  unfold TableDefinition.read?
  simp [hrecord, faithful_id.text?, hfields]

theorem HierarchyLink.read?_encode (l : HierarchyLink) (h : l.encode.nesting ≤ depth) :
    HierarchyLink.read? depth l.encode = some l := by
  obtain ⟨inner, rfl, -⟩ := Json.nesting_object_le_iff.1 h
  have hrecord : record? ["parent", "child"] l.encode = _ := faithful_id.record? rfl (by decide)
  unfold HierarchyLink.read?
  simp [hrecord, faithful_id.text?]

theorem HierarchyDefinition.read?_encode (d : HierarchyDefinition) (h : d.encode.nesting ≤ depth) :
    HierarchyDefinition.read? depth d.encode = some d := by
  obtain ⟨inner, rfl, hparts⟩ := Json.nesting_object_le_iff.1 h
  obtain ⟨inner, rfl, hitems⟩ := Json.nesting_array_le_iff.1
    (hparts ("edges", .array (d.links.map HierarchyLink.encode)) (by simp))
  have hlinks := faithful_id.list? fun l hl =>
    HierarchyLink.read?_encode l (hitems _ (List.mem_map_of_mem hl))
  have hrecord : record? ["name", "edges"] d.encode = _ := faithful_id.record? rfl (by decide)
  unfold HierarchyDefinition.read?
  simp [hrecord, faithful_id.text?, hlinks]

/-- An approach is read back. Its parts are read from a document held back as a whole. -/
theorem Approach.read?_encode (a : Approach) (hplain : a.encode.Plain) (h : a.encode.nesting ≤ depth) :
    Approach.read? depth a.encode = some (a.mapLiterals Scalar.unsigned) := by
  have hhold : hold? depth a.encode = some ⟨a.encode⟩ := if_pos (hplain.isSome_read? h)
  unfold Approach.read?
  rw [hhold]
  obtain ⟨inner, rfl, hparts⟩ := Json.nesting_object_le_iff.1 h
  cases a with
  | filter source predicate =>
    have hpredicate := Expr.read?_encode faithful_held predicate
      (Nat.le_succ_of_le (hparts ("predicate", predicate.encode) (by simp)))
    have hnamed : named? ["source", "predicate"]
        [("source", Held.mk (.text source)), ("predicate", ⟨predicate.encode⟩)] = _ :=
      named?_eq rfl (by decide)
    simp [ofHeld?, readParts?, encode, Approach.name, hnamed, faithful_held.text?, hpredicate, mapLiterals,
      Held.ofFields]
  | enrichment source =>
    have hnamed : named? ["source"] [("source", Held.mk (.text source))] = _ := named?_eq rfl (by decide)
    simp [ofHeld?, readParts?, encode, Approach.name, hnamed, faithful_held.text?, mapLiterals, Held.ofFields]
  | join base steps =>
    have hsteps := hparts ("steps", .array (steps.map JoinStep.encode)) (by simp)
    obtain ⟨inner, rfl, hitems⟩ := Json.nesting_array_le_iff.1 hsteps
    have hread : list? (JoinStep.read? (inner + 1 + 1)) (Held.mk (.array (steps.map JoinStep.encode))) = _ :=
      faithful_held.list? fun step hstep => JoinStep.read?_encode faithful_held step
        (Nat.le_succ_of_le (Nat.le_succ_of_le (hitems _ (List.mem_map_of_mem hstep))))
    have hnamed : named? ["base", "steps"]
        [("base", Held.mk (.text base)), ("steps", ⟨.array (steps.map JoinStep.encode)⟩)] = _ :=
      named?_eq rfl (by decide)
    simp [ofHeld?, readParts?, encode, Approach.name, hnamed, faithful_held.text?, hread, mapLiterals,
      Held.ofFields]
  | group source keys =>
    have hkeys := hparts ("group_by", .array (keys.map ColumnName.encode)) (by simp)
    obtain ⟨inner, rfl, hitems⟩ := Json.nesting_array_le_iff.1 hkeys
    have hread : list? (ColumnName.read? (inner + 1 + 1)) (Held.mk (.array (keys.map ColumnName.encode))) =
        _ :=
      faithful_held.list? fun key hkey => ColumnName.read?_encode faithful_held key
        (Nat.le_succ_of_le (Nat.le_succ_of_le (hitems _ (List.mem_map_of_mem hkey))))
    have hnamed : named? ["source", "group_by"]
        [("source", Held.mk (.text source)), ("group_by", ⟨.array (keys.map ColumnName.encode)⟩)] = _ :=
      named?_eq rfl (by decide)
    simp [ofHeld?, readParts?, encode, Approach.name, hnamed, faithful_held.text?, hread, mapLiterals,
      Held.ofFields]

theorem FunctionDefinition.read?_encode (c : FunctionDefinition) (h : c.encode.nesting ≤ depth) :
    FunctionDefinition.read? depth c.encode = some (c.mapLiterals Scalar.unsigned) := by
  obtain ⟨inner, rfl, hparts⟩ := Json.nesting_object_le_iff.1 h
  have hexpr := Expr.read?_encode faithful_id c.expr (hparts ("expr", c.expr.encode) (by simp))
  have hrecord : record? ["name", "text", "language", "expr"] c.encode = _ :=
    faithful_id.record? rfl (by decide)
  unfold FunctionDefinition.read?
  simp [hrecord, faithful_id.text?, optionalText?_encodeText?, hexpr, mapLiterals]

theorem DerivedDefinition.read?_encode (d : DerivedDefinition) (h : d.encode.nesting ≤ depth) :
    DerivedDefinition.read? depth d.encode = some (d.mapLiterals Scalar.unsigned) := by
  obtain ⟨inner, rfl, hparts⟩ := Json.nesting_object_le_iff.1 h
  obtain ⟨inner, rfl, hitems⟩ := Json.nesting_array_le_iff.1
    (hparts ("columns", .array (d.columns.map FunctionDefinition.encode)) (by simp))
  have hcolumns := faithful_id.list? fun c hc =>
    FunctionDefinition.read?_encode c (hitems _ (List.mem_map_of_mem hc))
  have hcreation := Approach.read?_encode d.creation d.creation.plain_encode
    (hparts ("creation", d.creation.encode) (by simp))
  have hrecord : record? ["name", "description", "creation", "columns"] d.encode = _ :=
    faithful_id.record? rfl (by decide)
  unfold DerivedDefinition.read?
  simp [hrecord, faithful_id.text?, optionalText?_encodeText?, hcreation, hcolumns, mapLiterals]

theorem Schema.read?_encode (s : Schema) (h : s.encode.nesting ≤ depth) :
    Schema.read? depth s.encode = some s.unsigned := by
  obtain ⟨inner, rfl, hparts⟩ := Json.nesting_object_le_iff.1 h
  have htables := hparts ("tables", .array (s.tables.map TableDefinition.encode)) (by simp)
  have hhierarchies := hparts ("hierarchies", .array (s.hierarchies.map HierarchyDefinition.encode)) (by simp)
  have hderived := hparts ("derived_tables", .array (s.derived.map DerivedDefinition.encode)) (by simp)
  obtain ⟨inner, rfl, hitems⟩ := Json.nesting_array_le_iff.1 htables
  have htables := faithful_id.list? fun t ht =>
    TableDefinition.read?_encode t (hitems _ (List.mem_map_of_mem ht))
  have hhierarchies := faithful_id.list? fun d hd => HierarchyDefinition.read?_encode d
    (Json.nesting_array_le_succ_iff.1 hhierarchies _ (List.mem_map_of_mem hd))
  have hderived := faithful_id.list? fun d hd => DerivedDefinition.read?_encode d
    (Json.nesting_array_le_succ_iff.1 hderived _ (List.mem_map_of_mem hd))
  have hrecord : record? ["name", "tables", "hierarchies", "derived_tables"] s.encode = _ :=
    faithful_id.record? rfl (by decide)
  unfold Schema.read?
  simp [hrecord, faithful_id.text?, listOrEmpty?, htables, hhierarchies, hderived, unsigned, mapLiterals]

end

namespace Schema

variable {s s' : Schema}

/-- A schema is read back from its canonical text, its zeros without a sign. -/
theorem ofJson_canonical_eq (h : s.encode.nesting ≤ Json.depthLimit) :
    ofJson s.canonical = .ok s.unsigned := by
  have hread : ofJsonText? s.canonical = some s.unsigned := by
    rw [ofJsonText?, canonical, s.plain_encode.parse?_compact]
    exact s.read?_encode h
  rw [ofJson, hread]

end Schema

end Provenance
