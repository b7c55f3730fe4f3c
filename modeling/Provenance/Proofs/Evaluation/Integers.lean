import Provenance.Proofs.Evaluation.Footprint
import Provenance.Proofs.Scalar.Sum

/-!
# Integer expressions

Expressions that negate, add, subtract, multiply and divide integers (`IntegerExpr`). What one of them comes
to over the unbounded integers is `IntegerExpr.number`. Evaluated in a row it has this value exactly if no leaf
is nothing, no divisor is zero and no part is out of range; else its value is nothing, or the first part that
has no value says why. Main statement: `IntegerExpr.evaluation`.
-/

namespace Provenance

/-- The operation of expressions that an operation on numbers is. -/
def ArithOp.toBinary : ArithOp → BinaryOp
  | .add => .add
  | .sub => .sub
  | .mul => .mul
  | .div => .div

theorem BinaryOp.apply_toBinary (op : ArithOp) (a b : Scalar) : op.toBinary.apply a b = a.arith op b := by
  cases op <;> rfl

/-! ## Operations on integers -/

namespace Scalar

/-- What becomes of an operation on two integers: it has the exact result, or this is out of range, or it is
a division by zero. -/
theorem arith_int_cases (op : ArithOp) (i j : Integer) :
    (∃ k, arith op (.int i) (.int j) = .ok (.int k) ∧ (op = .div → j.val ≠ 0) ∧
      k.val = Integer.exact op i.val j.val) ∨
    (arith op (.int i) (.int j) = .error (.overflow (.arithmetic op (.int i) (.int j))) ∧
      (op = .div → j.val ≠ 0) ∧ ¬Integer.InRange (Integer.exact op i.val j.val)) ∨
    (arith op (.int i) (.int j) = .error .divisionByZero ∧ op = .div ∧ j.val = 0) := by
  by_cases hzero : op = .div ∧ j.val = 0
  · exact .inr (.inr ⟨if_pos hzero, hzero⟩)
  · have heq : arith op (.int i) (.int j) = _ := if_neg hzero
    have hdivisor : op = .div → j.val ≠ 0 := fun hop hj => hzero ⟨hop, hj⟩
    cases hexact : i.arith? op j with
    | none =>
      rw [hexact] at heq
      exact .inr (.inl ⟨heq, hdivisor, Integer.ofInt?_eq_none_iff.1 hexact⟩)
    | some k =>
      rw [hexact] at heq
      exact .inl ⟨k, heq, hdivisor, Integer.ofInt?_eq_some_iff.1 hexact⟩

/-- The negation of an integer is exact, or it is out of range. -/
theorem negate_int_cases (i : Integer) :
    (∃ k, negate (.int i) = .ok (.int k) ∧ k.val = -i.val) ∨
    (negate (.int i) = .error (.overflow (.negation i)) ∧ ¬Integer.InRange (-i.val)) := by
  cases hexact : Integer.ofInt? (-i.val) with
  | none => exact .inr ⟨by simp only [negate, hexact], Integer.ofInt?_eq_none_iff.1 hexact⟩
  | some k => exact .inl ⟨k, by simp only [negate, hexact], Integer.ofInt?_eq_some_iff.1 hexact⟩

end Scalar

/-- An expression over integers. Columns of cubes are columns once the cube is there. -/
inductive IntegerExpr where
  | null
  | literal (value : Integer)
  | column (name : ColumnName)
  | speculative (name : CubeColumn)
  | neg (arg : IntegerExpr)
  | arith (op : ArithOp) (left right : IntegerExpr)

namespace IntegerExpr

/-- The expression as one among all others. -/
def toExpr : IntegerExpr → Expr
  | .null => .literal .null
  | .literal i => .literal (.int i)
  | .column name => .column name
  | .speculative name => .speculative name
  | .neg e => .unary .neg e.toExpr
  | .arith op e e' => .binary op.toBinary e.toExpr e'.toExpr

/-- The expression and all that it is built from, in the order of evaluation. -/
def parts : IntegerExpr → List IntegerExpr
  | .neg e => e.parts ++ [.neg e]
  | .arith op e e' => e.parts ++ e'.parts ++ [.arith op e e']
  | leaf => [leaf]

/-- The payload of a leaf in a row. -/
def payload? (b : Binding) : IntegerExpr → Option Scalar
  | .null => some .null
  | .literal i => some (.int i)
  | .column name => (b.payload name).toOption
  | .speculative name => (b.payload name.toColumn).toOption
  | .neg _ | .arith .. => none

/-- The value over the unbounded integers, where nothing counts for zero and what is divided by zero is
zero. -/
def number (b : Binding) : IntegerExpr → Int
  | .neg e => -e.number b
  | .arith op e e' => Integer.exact op (e.number b) (e'.number b)
  | leaf => (leaf.payload? b).elim 0 Scalar.amount

/-- Every column is found in the row and holds an integer or nothing. -/
structure Resolves (c : Catalog) (b : Binding) (e : IntegerExpr) : Prop where
  integer : ∀ name ∈ e.toExpr.leaves, ∃ v, b.payload name = .ok v ∧ v.conforms .integer
  cube : ∀ name ∈ e.toExpr.cubeColumns, c.hasColumn name.toColumn = true

/-- A part that is not a leaf with nothing, does not divide by zero and is in range. -/
structure Sound (b : Binding) (p : IntegerExpr) : Prop where
  leaf : p.payload? b ≠ some .null
  divisor : ∀ l r, p = arith .div l r → r.number b ≠ 0
  inRange : Integer.InRange (p.number b)

/-- Nothing stands in the way of the exact value. -/
def Regular (b : Binding) (e : IntegerExpr) : Prop := ∀ p ∈ e.parts, p.Sound b

section

variable (c : Catalog) (functions : Functions) (b : Binding)

/-- The value that evaluation in a row gives. -/
def value (e : IntegerExpr) : Except Error Scalar :=
  (e.toExpr.evaluate c functions (.row b)).map Evaluated.value

theorem value_eq_map (e : IntegerExpr) :
    e.value c functions b = (e.toExpr.eval c functions (.row b)).map Prod.fst := by
  unfold value Expr.evaluate
  cases e.toExpr.eval c functions (.row b) <;> rfl

theorem value_column (name : ColumnName) : (column name).value c functions b = b.payload name := by
  rw [value_eq_map]
  simp only [toExpr, Expr.eval, Expr.readColumn, Expr.readCell, Binding.payload]
  cases b.lookup name with
  | error => rfl
  | ok cell? => cases cell? <;> rfl

variable {c} in
theorem value_speculative {name : CubeColumn} (hname : c.hasColumn name.toColumn = true) :
    (speculative name).value c functions b = b.payload name.toColumn := by
  rw [← value_column c functions, value_eq_map, value_eq_map]
  simp only [toExpr, Expr.eval, if_pos hname]

theorem value_neg (e : IntegerExpr) :
    (neg e).value c functions b = e.value c functions b >>= Scalar.negate := by
  rw [value_eq_map, value_eq_map]
  simp only [toExpr, Expr.eval]
  cases e.toExpr.eval c functions (.row b) with
  | error => rfl
  | ok result =>
    show ((UnaryOp.neg.apply result.1 >>= fun v => pure (v, result.2)).map Prod.fst : Except _ _) =
      result.1.negate
    unfold UnaryOp.apply
    cases result.1.negate <;> rfl

theorem value_arith (op : ArithOp) (e e' : IntegerExpr) : (arith op e e').value c functions b = (do
      let v ← e.value c functions b
      let v' ← e'.value c functions b
      v.arith op v') := by
  simp only [value_eq_map, toExpr, Expr.eval, BinaryOp.apply_toBinary]
  cases e.toExpr.eval c functions (.row b) with
  | error => rfl
  | ok result =>
    cases e'.toExpr.eval c functions (.row b) with
    | error => rfl
    | ok result' =>
      show ((result.1.arith op result'.1 >>= fun v => pure (v, result.2 ++ result'.2)).map Prod.fst :
        Except _ _) = result.1.arith op result'.1
      cases result.1.arith op result'.1 <;> rfl

/-- The operands of an expression are integers, but it has no value itself, with the error for it. -/
inductive Breaks : IntegerExpr → Error → Prop
  | division {l r i j} (hl : l.value c functions b = .ok (.int i)) (hr : r.value c functions b = .ok (.int j))
      (hzero : r.number b = 0) : Breaks (.arith .div l r) .divisionByZero
  | overflow {op l r i j} (hl : l.value c functions b = .ok (.int i))
      (hr : r.value c functions b = .ok (.int j)) (hdivisor : op = .div → r.number b ≠ 0)
      (hrange : ¬Integer.InRange ((arith op l r).number b)) :
      Breaks (.arith op l r) (.overflow (.arithmetic op (.int i) (.int j)))
  | negation {e i} (he : e.value c functions b = .ok (.int i))
      (hrange : ¬Integer.InRange ((neg e).number b)) : Breaks (.neg e) (.overflow (.negation i))

/-- A part breaks, and it is the first one in the order of evaluation that has no value. -/
structure FailsAt (e p : IntegerExpr) (err : Error) : Prop where
  first : ∃ before after, e.parts = before ++ p :: after ∧ ∀ q ∈ before, ∃ v, q.value c functions b = .ok v
  value : p.value c functions b = .error err
  breaks : p.Breaks c functions b err

/-- What evaluation gives, with the reason for it. -/
inductive Result (e : IntegerExpr) : Except Error Scalar → Prop
  | exact {z} (hregular : e.Regular b) (hz : z.val = e.number b) : Result e (.ok (.int z))
  | null {p} (hp : p ∈ e.parts) (hnull : p.payload? b = some .null) : Result e (.ok .null)
  | error {p err} (h : e.FailsAt c functions b p err) : Result e (.error err)

end

variable {c : Catalog} {functions : Functions} {b : Binding} {e e' p : IntegerExpr} {op : ArithOp} {v : Scalar}
  {err : Error} {z : Integer}

/-! ## Induction over an expression whose columns are found -/

theorem Resolves.neg (h : (neg e).Resolves c b) : e.Resolves c b := ⟨h.integer, h.cube⟩

theorem Resolves.left (h : (arith op e e').Resolves c b) : e.Resolves c b :=
  ⟨fun name hname => h.integer name (Expr.mem_leaves_binary.2 (.inl hname)),
    fun name hname => h.cube name (List.mem_append_left _ hname)⟩

theorem Resolves.right (h : (arith op e e').Resolves c b) : e'.Resolves c b :=
  ⟨fun name hname => h.integer name (Expr.mem_leaves_binary.2 (.inr hname)),
    fun name hname => h.cube name (List.mem_append_right _ hname)⟩

/-- Leaves of every kind have the payload that is evaluated, so they are one case. -/
theorem Resolves.induct (functions : Functions) {motive : IntegerExpr → Prop} (h : e.Resolves c b)
    (leaf : ∀ p v, p.parts = [p] → p.payload? b = some v → p.number b = v.amount →
      p.value c functions b = .ok v → v.conforms .integer → motive p)
    (neg : ∀ e, motive e → motive (.neg e))
    (arith : ∀ op e e', motive e → motive e' → motive (.arith op e e')) : motive e := by
  induction e with
  | null => exact leaf .null .null rfl rfl rfl rfl rfl
  | literal i => exact leaf (.literal i) (.int i) rfl rfl rfl rfl rfl
  | column name =>
    obtain ⟨v, hv, hinteger⟩ := h.integer name (List.mem_singleton_self _)
    exact leaf _ v rfl (by simp [payload?, hv, Except.toOption]) (by simp [number, payload?, hv, Except.toOption])
      ((value_column c functions b name).trans hv) hinteger
  | speculative name =>
    obtain ⟨v, hv, hinteger⟩ := h.integer name.toColumn (List.mem_singleton_self _)
    have hcube := h.cube name (List.mem_singleton_self _)
    exact leaf _ v rfl (by simp [payload?, hv, Except.toOption]) (by simp [number, payload?, hv, Except.toOption])
      ((value_speculative functions b hcube).trans hv) hinteger
  | neg e ih => exact neg e (ih h.neg)
  | arith op e e' ih ih' => exact arith op e e' (ih h.left) (ih' h.right)

/-- What has a value has evaluated all its parts. -/
theorem exists_value_of_mem (hv : e.value c functions b = .ok v) (hp : p ∈ e.parts) :
    ∃ w, p.value c functions b = .ok w := by
  induction e generalizing v with
  | null | literal | column | speculative =>
    cases List.mem_singleton.1 hp
    exact ⟨v, hv⟩
  | neg e ih =>
    rcases List.mem_append.1 hp with hp | hp
    · rw [value_neg] at hv
      obtain ⟨w, hw, -⟩ := Except.bind_eq_ok_iff.1 hv
      exact ih hw hp
    · cases List.mem_singleton.1 hp
      exact ⟨v, hv⟩
  | arith op e e' ih ih' =>
    rcases List.mem_append.1 hp with hp | hp
    · rw [value_arith] at hv
      obtain ⟨w, hw, hv⟩ := Except.bind_eq_ok_iff.1 hv
      obtain ⟨w', hw', -⟩ := Except.bind_eq_ok_iff.1 hv
      rcases List.mem_append.1 hp with hp | hp
      · exact ih hw hp
      · exact ih' hw' hp
    · cases List.mem_singleton.1 hp
      exact ⟨v, hv⟩

/-! ## When nothing stands in the way -/

theorem Regular.leaf (hp : p.parts = [p]) (hpayload : p.payload? b = some (.int z))
    (hnumber : p.number b = z.val) : p.Regular b := by
  intro q hq
  cases List.mem_singleton.1 (hp ▸ hq)
  refine ⟨by rw [hpayload]; exact nofun, ?_, hnumber ▸ Integer.inRange_val z⟩
  rintro l r rfl
  cases hpayload

theorem Regular.neg (h : e.Regular b) (hrange : Integer.InRange ((neg e).number b)) :
    (IntegerExpr.neg e).Regular b :=
  List.forall_mem_append.2 ⟨h, List.forall_mem_singleton.2 ⟨nofun, nofun, hrange⟩⟩

theorem Regular.arith (h : e.Regular b) (h' : e'.Regular b) (hdivisor : op = .div → e'.number b ≠ 0)
    (hrange : Integer.InRange ((arith op e e').number b)) : (IntegerExpr.arith op e e').Regular b := by
  refine List.forall_mem_append.2 ⟨List.forall_mem_append.2 ⟨h, h'⟩, List.forall_mem_singleton.2 ⟨nofun, ?_, hrange⟩⟩
  rintro l r ⟨⟩
  exact hdivisor rfl

/-! ## The value and the reason for it -/

/-- Where a part fails the whole fails, if all that is evaluated before that part has a value. -/
theorem FailsAt.extend {before after : List IntegerExpr} (h : e.FailsAt c functions b p err)
    (hparts : e'.parts = before ++ e.parts ++ after)
    (hbefore : ∀ q ∈ before, ∃ v, q.value c functions b = .ok v) : e'.FailsAt c functions b p err := by
  obtain ⟨before', after', heq, hbefore'⟩ := h.first
  refine ⟨⟨before ++ before', after' ++ after, ?_, fun q hq => ?_⟩, h.value, h.breaks⟩
  · rw [hparts, heq]
    simp
  · exact (List.mem_append.1 hq).elim (hbefore q) (hbefore' q)

/-- An expression whose operands have values may fail itself. -/
theorem FailsAt.self {before : List IntegerExpr} (hparts : e.parts = before ++ [e])
    (hbefore : ∀ q ∈ before, ∃ v, q.value c functions b = .ok v) (hvalue : e.value c functions b = .error err)
    (hbreaks : e.Breaks c functions b err) : e.FailsAt c functions b e err :=
  ⟨⟨before, [], hparts, hbefore⟩, hvalue, hbreaks⟩

theorem Result.leaf (hp : p.parts = [p]) (hpayload : p.payload? b = some v) (hnumber : p.number b = v.amount)
    (hinteger : v.conforms .integer) : p.Result c functions b (.ok v) := by
  rcases Scalar.cases_of_integer hinteger with rfl | ⟨z, rfl⟩
  · exact .null (hp ▸ List.mem_singleton_self p) hpayload
  · exact .exact (.leaf hp hpayload hnumber) hnumber.symm

/-- Negation gives a result with a reason if its operand does. -/
theorem Result.neg (h : e.Result c functions b (e.value c functions b)) :
    (neg e).Result c functions b ((IntegerExpr.neg e).value c functions b) := by
  generalize hvalue : e.value c functions b = result at h
  have hneg := value_neg c functions b e
  rw [hvalue] at hneg
  have hparts : (IntegerExpr.neg e).parts = e.parts ++ [.neg e] := rfl
  cases h with
  | @exact i hregular hi =>
    have hi' : -i.val = (IntegerExpr.neg e).number b := congrArg _ hi
    rcases Scalar.negate_int_cases i with ⟨z, hz, hval⟩ | ⟨herr, hrange⟩
    · rw [hneg, Except.bind_of_ok rfl, hz]
      exact .exact (hregular.neg (hi' ▸ hval ▸ Integer.inRange_val z)) (hval.trans hi')
    · have hfail := hneg.trans herr
      rw [hfail]
      exact .error (.self hparts (fun q => exists_value_of_mem hvalue) hfail (.negation hvalue (hi' ▸ hrange)))
  | @null p hp hnull =>
    rw [hneg]
    exact .null (List.mem_append_left _ hp) hnull
  | @error p err h =>
    rw [hneg]
    exact .error (h.extend (show _ = [] ++ e.parts ++ _ from rfl) nofun)

/-- An operation gives a result with a reason if its operands do. -/
theorem Result.arith (op : ArithOp) (h : e.Result c functions b (e.value c functions b))
    (h' : e'.Result c functions b (e'.value c functions b)) :
    (arith op e e').Result c functions b ((IntegerExpr.arith op e e').value c functions b) := by
  generalize hvalue : e.value c functions b = result at h
  generalize hvalue' : e'.value c functions b = result' at h'
  have harith := value_arith c functions b op e e'
  rw [hvalue, hvalue'] at harith
  have hparts : (IntegerExpr.arith op e e').parts = e.parts ++ e'.parts ++ [.arith op e e'] := rfl
  -- The left operand comes first: its error is that of the whole, and if it has none all its parts have values.
  cases h with
  | @error p err h =>
    rw [harith]
    exact .error (h.extend (show _ = [] ++ e.parts ++ _ from hparts.trans (List.append_assoc _ _ _)) nofun)
  | @null p hp hnull =>
    cases h' with
    | @error p err h' =>
      rw [harith]
      exact .error (h'.extend hparts fun q => exists_value_of_mem hvalue)
    | exact | null =>
      rw [harith]
      exact .null (List.mem_append_left _ (List.mem_append_left _ hp)) hnull
  | @exact i hregular hi =>
    cases h' with
    | @error p err h' =>
      rw [harith]
      exact .error (h'.extend hparts fun q => exists_value_of_mem hvalue)
    | @null p hp hnull =>
      rw [harith]
      exact .null (List.mem_append_left _ (List.mem_append_right _ hp)) hnull
    | @exact j hregular' hj =>
      have hbefore : ∀ q ∈ e.parts ++ e'.parts, ∃ v, q.value c functions b = .ok v := fun q hq =>
        (List.mem_append.1 hq).elim (exists_value_of_mem hvalue) (exists_value_of_mem hvalue')
      have hnumber : Integer.exact op i.val j.val = (IntegerExpr.arith op e e').number b := by
        rw [hi, hj]
        rfl
      rcases Scalar.arith_int_cases op i j with ⟨z, hz, hdivisor, hval⟩ | ⟨herr, hdivisor, hrange⟩ |
        ⟨herr, rfl, hzero⟩
      · rw [harith, Except.bind_of_ok rfl, Except.bind_of_ok rfl, hz]
        have hval := hval.trans hnumber
        exact .exact (hregular.arith hregular' (hj ▸ hdivisor) (hval ▸ Integer.inRange_val z)) hval
      · have hfail := harith.trans herr
        rw [hfail]
        exact .error (.self hparts hbefore hfail (.overflow hvalue hvalue' (hj ▸ hdivisor) (hnumber ▸ hrange)))
      · have hfail := harith.trans herr
        rw [hfail]
        exact .error (.self hparts hbefore hfail (.division hvalue hvalue' (hj ▸ hzero)))

theorem Resolves.result (functions : Functions) (h : e.Resolves c b) :
    e.Result c functions b (e.value c functions b) := by
  refine Resolves.induct (motive := fun e => e.Result c functions b (e.value c functions b)) functions h ?_ ?_ ?_
  · intro p v hp hpayload hnumber hvalue hinteger
    rw [hvalue]
    exact .leaf hp hpayload hnumber hinteger
  · exact fun e ih => ih.neg
  · exact fun op e e' ih ih' => .arith op ih ih'

end IntegerExpr

namespace Sample

/-- What is missing. -/
def missing : IntegerExpr := .neg (.column ⟨"stock", "level"⟩)

end Sample

end Provenance
