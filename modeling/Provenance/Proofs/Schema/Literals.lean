import Provenance.Proofs.Decimal.Reread
import Provenance.Proofs.Evaluation.Footprint
import Provenance.Proofs.Scalar.Equality
import Provenance.Schema.Basic

/-!
# The literals of a schema

The values that stand in the expressions of a schema are all of it that has more than one form. Schemas are
equal if their literals have equal values and everything else is the same (`Schema.Equal`). Main statements:
`Schema.equal_of_mapLiterals_eq`, `Schema.mapLiterals_eq_self`.
-/

namespace Provenance

namespace Decimal

theorem unsignZero_eq_self {d : Decimal} (h : d.isZero → d.negative = false) : d.unsignZero = d := by
  unfold unsignZero
  split
  · next hd =>
    obtain ⟨negative, coefficient, scale, hlt, hle⟩ := d
    cases h hd
    rfl
  · rfl

theorem unsignZero_unsignZero (d : Decimal) : d.unsignZero.unsignZero = d.unsignZero := by
  unfold unsignZero
  by_cases hd : d.isZero
  · rw [if_pos hd, if_pos (show d.abs.isZero from hd)]
    rfl
  · rw [if_neg hd, if_neg hd]

theorem eqv_unsignZero (d : Decimal) : d.eqv d.unsignZero := by
  unfold unsignZero
  by_cases hd : d.isZero
  · have hzero : d.coefficient = 0 := by simpa [isZero] using hd
    rw [if_pos hd, eqv_iff]
    simp [signed, abs, hzero]
  · rw [if_neg hd]
    exact d.eqv_refl

theorem eqv_of_unsignZero_eq {d d' : Decimal} (h : d.unsignZero = d'.unsignZero) : d.eqv d' :=
  eqv_trans (h ▸ eqv_unsignZero d) (eqv_symm (eqv_unsignZero d'))

end Decimal

namespace Scalar

/-- The payload, zero without its sign. -/
def unsigned : Scalar → Scalar
  | .decimal d => .decimal d.unsignZero
  | v => v

theorem unsigned_unsigned (v : Scalar) : v.unsigned.unsigned = v.unsigned := by
  cases v with
  | decimal d => exact congrArg Scalar.decimal d.unsignZero_unsignZero
  | _ => rfl

theorem eqv_of_unsigned_eq {v v' : Scalar} (h : v.unsigned = v'.unsigned) : v.eqv v' := by
  cases v with
  | decimal d =>
    cases v' with
    | decimal d' => exact Decimal.eqv_of_unsignZero_eq (Scalar.decimal.inj h)
    | _ => cases h
  | _ =>
    cases v' with
    | decimal d' => cases h
    | _ =>
      cases h <;> exact eqv_refl _

end Scalar

/-! ## Expressions -/

namespace Expr

variable {f g : Scalar → Scalar} {e e' : Expr} {args args' : List Expr}

mutual

/-- The values that stand in an expression, in their order. -/
def literals : Expr → List Scalar
  | .literal v => [v]
  | .member _ _ e | .unary _ e | .aggregate _ e => e.literals
  | .binary _ e e' => e.literals ++ e'.literals
  | .call _ args => literalsOfAll args
  | .column _ | .speculative _ | .aggregateRows _ => []

def literalsOfAll : List Expr → List Scalar
  | [] => []
  | e :: rest => e.literals ++ literalsOfAll rest

end

mutual

/-- The expression with other values in the place of those that stand in it. -/
def mapLiterals (f : Scalar → Scalar) : Expr → Expr
  | .literal v => .literal (f v)
  | .member h a e => .member h a (e.mapLiterals f)
  | .unary op e => .unary op (e.mapLiterals f)
  | .binary op e e' => .binary op (e.mapLiterals f) (e'.mapLiterals f)
  | .call function args => .call function (mapAllLiterals f args)
  | .aggregate func e => .aggregate func (e.mapLiterals f)
  | e => e

def mapAllLiterals (f : Scalar → Scalar) : List Expr → List Expr
  | [] => []
  | e :: rest => e.mapLiterals f :: mapAllLiterals f rest

end

mutual

/-- Whether expressions are equal, values being equal as payloads are. -/
def eqv : Expr → Expr → Bool
  | .literal v, .literal v' => v.eqv v'
  | .column name, .column name' => name == name'
  | .speculative name, .speculative name' => name == name'
  | .member h a e, .member h' a' e' => h == h' && a == a' && e.eqv e'
  | .unary op e, .unary op' e' => op == op' && e.eqv e'
  | .binary op l r, .binary op' l' r' => op == op' && l.eqv l' && r.eqv r'
  | .call function args, .call function' args' => function == function' && allEqv args args'
  | .aggregate func e, .aggregate func' e' => func == func' && e.eqv e'
  | .aggregateRows func, .aggregateRows func' => func == func'
  | _, _ => false

def allEqv : List Expr → List Expr → Bool
  | [], [] => true
  | e :: rest, e' :: rest' => e.eqv e' && allEqv rest rest'
  | _, _ => false

end

theorem mapAllLiterals_eq (args : List Expr) : mapAllLiterals f args = args.map (mapLiterals f) := by
  induction args with
  | nil => rfl
  | cons e rest ih => rw [mapAllLiterals, ih, List.map_cons]

theorem literalsOfAll_eq (args : List Expr) : literalsOfAll args = args.flatMap literals := by
  induction args with
  | nil => rfl
  | cons e rest ih => rw [literalsOfAll, ih, List.flatMap_cons]

theorem mapLiterals_eq_self (h : ∀ v ∈ e.literals, f v = v) : e.mapLiterals f = e := by
  induction e with
  | literal v => rw [mapLiterals, h v List.mem_cons_self]
  | member _ _ e ih | unary _ e ih | aggregate _ e ih => rw [mapLiterals, ih h]
  | binary op e e' ih ih' =>
    obtain ⟨h, h'⟩ := List.forall_mem_append.1 h
    rw [mapLiterals, ih h, ih' h']
  | call function args ih =>
    rw [literals, literalsOfAll_eq] at h
    rw [mapLiterals, mapAllLiterals_eq]
    have hargs : ∀ e ∈ args, e.mapLiterals f = e := fun e he =>
      ih e he fun v hv => h v (List.mem_flatMap.2 ⟨e, he, hv⟩)
    rw [List.map_congr_left hargs, List.map_id']
  | column | speculative | aggregateRows => rfl

theorem mapLiterals_mapLiterals (e : Expr) : (e.mapLiterals f).mapLiterals g = e.mapLiterals (g ∘ f) := by
  induction e with
  | member _ _ e ih | unary _ e ih | aggregate _ e ih => simp only [mapLiterals, ih]
  | binary op e e' ih ih' => simp only [mapLiterals, ih, ih']
  | call function args ih =>
    simp only [mapLiterals, mapAllLiterals_eq, List.map_map]
    exact congrArg _ (List.map_congr_left ih)
  | literal | column | speculative | aggregateRows => rfl

theorem allEqv_of_map_eq (h : ∀ e ∈ args, ∀ e', e.mapLiterals f = e'.mapLiterals f → e.eqv e')
    (hmap : args.map (mapLiterals f) = args'.map (mapLiterals f)) : allEqv args args' := by
  induction args generalizing args' with
  | nil =>
    rw [List.map_eq_nil_iff.1 hmap.symm]
    rfl
  | cons e rest ih =>
    obtain ⟨e', rest', rfl, he, hrest⟩ := List.map_eq_cons_iff.1 hmap.symm
    obtain ⟨h, hall⟩ := List.forall_mem_cons.1 h
    exact Bool.and_eq_true_iff.2 ⟨h e' he.symm, ih hall hrest.symm⟩

theorem eqv_of_mapLiterals_eq (hf : ∀ v v', f v = f v' → v.eqv v') (h : e.mapLiterals f = e'.mapLiterals f) :
    e.eqv e' := by
  induction e generalizing e' with
  | literal v =>
    cases e' <;> simp only [mapLiterals, reduceCtorEq, literal.injEq] at h
    exact hf _ _ h
  | column | speculative | aggregateRows =>
    cases e' <;> simp_all [mapLiterals, eqv]
  | member _ _ e ih | unary _ e ih | aggregate _ e ih =>
    cases e' <;> simp_all [mapLiterals, eqv]
  | binary op l r ihl ihr =>
    cases e' <;> simp_all [mapLiterals, eqv]
  | call function args ih =>
    cases e' <;> simp only [mapLiterals, reduceCtorEq, call.injEq, mapAllLiterals_eq] at h
    obtain ⟨rfl, hmap⟩ := h
    exact Bool.and_eq_true_iff.2 ⟨beq_self_eq_true function, allEqv_of_map_eq (fun e he _ => ih e he) hmap⟩

end Expr

/-! ## Schemas -/

/-- The approach with other values in the place of those that stand in its predicate. -/
def Approach.mapLiterals (f : Scalar → Scalar) : Approach → Approach
  | .filter source predicate => .filter source (predicate.mapLiterals f)
  | a => a

/-- The values that stand in the predicate of an approach. -/
def Approach.literals : Approach → List Scalar
  | .filter _ predicate => predicate.literals
  | _ => []

/-- Approaches are equal. -/
def Approach.Equal : Approach → Approach → Prop
  | .filter source predicate, .filter source' predicate' => source = source' ∧ predicate.eqv predicate'
  | a, a' => a = a'

/-- The column with other values in the place of those that stand in its expression. -/
def FunctionDefinition.mapLiterals (f : Scalar → Scalar) (c : FunctionDefinition) : FunctionDefinition :=
  { c with expr := c.expr.mapLiterals f }

/-- Columns are equal. -/
structure FunctionDefinition.Equal (c c' : FunctionDefinition) : Prop where
  name : c.name = c'.name
  text : c.text = c'.text
  language : c.language = c'.language
  expr : c.expr.eqv c'.expr

/-- The table with other values in the place of those that stand in it. -/
def DerivedDefinition.mapLiterals (f : Scalar → Scalar) (d : DerivedDefinition) : DerivedDefinition :=
  { d with creation := d.creation.mapLiterals f, columns := d.columns.map (·.mapLiterals f) }

/-- The values that stand in the expressions of a table. -/
def DerivedDefinition.literals (d : DerivedDefinition) : List Scalar :=
  d.creation.literals ++ d.columns.flatMap fun c => c.expr.literals

/-- Tables are equal. -/
structure DerivedDefinition.Equal (d d' : DerivedDefinition) : Prop where
  name : d.name = d'.name
  description : d.description = d'.description
  creation : d.creation.Equal d'.creation
  columns : List.Forall₂ FunctionDefinition.Equal d.columns d'.columns

namespace Schema

/-- The schema with other values in the place of those that stand in it. -/
def mapLiterals (f : Scalar → Scalar) (s : Schema) : Schema :=
  { s with derived := s.derived.map (·.mapLiterals f) }

/-- The values that stand in the expressions of a schema. -/
def literals (s : Schema) : List Scalar := s.derived.flatMap DerivedDefinition.literals

/-- Schemas are equal: their literals have equal values, and everything else is the same. -/
structure Equal (s s' : Schema) : Prop where
  name : s.name = s'.name
  tables : s.tables = s'.tables
  hierarchies : s.hierarchies = s'.hierarchies
  derived : List.Forall₂ DerivedDefinition.Equal s.derived s'.derived

/-- The schema, its zeros without a sign. -/
def unsigned (s : Schema) : Schema := s.mapLiterals Scalar.unsigned

end Schema

section

variable {f g : Scalar → Scalar}

theorem Approach.mapLiterals_eq_self {a : Approach} (h : ∀ v ∈ a.literals, f v = v) : a.mapLiterals f = a := by
  cases a with
  | filter source predicate => exact congrArg _ (Expr.mapLiterals_eq_self h)
  | _ => rfl

theorem Approach.mapLiterals_mapLiterals (a : Approach) :
    (a.mapLiterals f).mapLiterals g = a.mapLiterals (g ∘ f) := by
  cases a with
  | filter source predicate => exact congrArg _ predicate.mapLiterals_mapLiterals
  | _ => rfl

theorem FunctionDefinition.mapLiterals_mapLiterals (c : FunctionDefinition) :
    (c.mapLiterals f).mapLiterals g = c.mapLiterals (g ∘ f) := by
  unfold mapLiterals
  rw [Expr.mapLiterals_mapLiterals]

theorem DerivedDefinition.mapLiterals_eq_self {d : DerivedDefinition} (h : ∀ v ∈ d.literals, f v = v) :
    d.mapLiterals f = d := by
  obtain ⟨hcreation, hcolumns⟩ := List.forall_mem_append.1 h
  have hall : ∀ c ∈ d.columns, c.mapLiterals f = c := fun c hc => by
    have hexpr := Expr.mapLiterals_eq_self fun v hv => hcolumns v (List.mem_flatMap.2 ⟨c, hc, hv⟩)
    rw [FunctionDefinition.mapLiterals, hexpr]
  rw [mapLiterals, Approach.mapLiterals_eq_self hcreation, List.map_congr_left hall, List.map_id']

theorem DerivedDefinition.mapLiterals_mapLiterals (d : DerivedDefinition) :
    (d.mapLiterals f).mapLiterals g = d.mapLiterals (g ∘ f) := by
  unfold mapLiterals
  simp only [Approach.mapLiterals_mapLiterals, List.map_map]
  congr 1
  exact List.map_congr_left fun c _ => c.mapLiterals_mapLiterals

theorem Approach.equal_of_mapLiterals_eq {a a' : Approach} (hf : ∀ v v', f v = f v' → v.eqv v')
    (h : a.mapLiterals f = a'.mapLiterals f) : a.Equal a' := by
  cases a with
  | filter source predicate =>
    cases a' <;> simp only [mapLiterals, reduceCtorEq, filter.injEq] at h
    exact ⟨h.1, Expr.eqv_of_mapLiterals_eq hf h.2⟩
  | _ => cases a' <;> simp_all [mapLiterals, Equal]

theorem FunctionDefinition.equal_of_mapLiterals_eq {c c' : FunctionDefinition}
    (hf : ∀ v v', f v = f v' → v.eqv v') (h : c.mapLiterals f = c'.mapLiterals f) : c.Equal c' := by
  simp only [mapLiterals, FunctionDefinition.mk.injEq] at h
  exact ⟨h.1, h.2.1, h.2.2.1, Expr.eqv_of_mapLiterals_eq hf h.2.2.2⟩

theorem forall₂_of_map_eq {α : Type} {R : α → α → Prop} {m : α → α} {xs ys : List α}
    (hR : ∀ x y, m x = m y → R x y) (h : xs.map m = ys.map m) : List.Forall₂ R xs ys := by
  rw [← List.forall₂_eq_eq_eq, List.forall₂_map_left_iff, List.forall₂_map_right_iff] at h
  exact h.imp fun _ _ => hR _ _

theorem DerivedDefinition.equal_of_mapLiterals_eq {d d' : DerivedDefinition}
    (hf : ∀ v v', f v = f v' → v.eqv v') (h : d.mapLiterals f = d'.mapLiterals f) : d.Equal d' := by
  simp only [mapLiterals, DerivedDefinition.mk.injEq] at h
  exact ⟨h.1, h.2.1, Approach.equal_of_mapLiterals_eq hf h.2.2.1,
    forall₂_of_map_eq (fun _ _ => FunctionDefinition.equal_of_mapLiterals_eq hf) h.2.2.2⟩

namespace Schema

variable {s s' : Schema}

/-- A map that leaves the literals of a schema as they are leaves the schema as it is. -/
theorem mapLiterals_eq_self (h : ∀ v ∈ s.literals, f v = v) : s.mapLiterals f = s := by
  have hall : ∀ d ∈ s.derived, d.mapLiterals f = d := fun d hd =>
    DerivedDefinition.mapLiterals_eq_self fun v hv => h v (List.mem_flatMap.2 ⟨d, hd, hv⟩)
  rw [mapLiterals, List.map_congr_left hall, List.map_id']

theorem mapLiterals_mapLiterals (s : Schema) : (s.mapLiterals f).mapLiterals g = s.mapLiterals (g ∘ f) := by
  unfold mapLiterals
  rw [List.map_map]
  congr 1
  exact List.map_congr_left fun d _ => d.mapLiterals_mapLiterals

/-- Schemas are equal if a map that tells apart what has different values makes them the same. -/
theorem equal_of_mapLiterals_eq (hf : ∀ v v', f v = f v' → v.eqv v')
    (h : s.mapLiterals f = s'.mapLiterals f) : s.Equal s' := by
  simp only [mapLiterals, Schema.mk.injEq] at h
  exact ⟨h.1, h.2.1, h.2.2.1,
    forall₂_of_map_eq (fun _ _ => DerivedDefinition.equal_of_mapLiterals_eq hf) h.2.2.2⟩

theorem equal_of_unsigned_eq (h : s.unsigned = s'.unsigned) : s.Equal s' :=
  equal_of_mapLiterals_eq (fun _ _ => Scalar.eqv_of_unsigned_eq) h

theorem equal_unsigned (s : Schema) : s.Equal s.unsigned := by
  refine equal_of_unsigned_eq ?_
  unfold unsigned
  rw [mapLiterals_mapLiterals]
  congr 1
  funext v
  exact v.unsigned_unsigned.symm

end Schema

end

end Provenance
