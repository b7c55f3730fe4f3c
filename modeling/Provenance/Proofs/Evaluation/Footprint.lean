import Provenance.Proofs.Distinct
import Provenance.Proofs.Rows.Alike
import Provenance.Proofs.Rows.Frames

/-!
# What an expression denotes

The cells that the leaves of an expression stand for in a scope, read off the expression and the scope
alone (`Expr.denoted`): no payload has a part in it. An expression that is evaluated reads exactly these
cells, in this order (`Expr.readings_of_eval`).
-/

namespace Provenance

/-- The value in a column of a binding; an empty place has none. -/
def Binding.denoted (b : Binding) (name : ColumnName) : List Entity :=
  match b.slots.find? fun slot => slot.1.name = name.table with
  | some (_, some r) => ((r.cell? name.column).map Cell.value).toList
  | _ => []

/-- The values in a column of all bindings of a scope. -/
def Scope.denoted (s : Scope) (name : ColumnName) : List Entity :=
  s.partition.flatMap fun b => b.denoted name

/-- What a column denotes in a binding is held in this column by the row in the place of its table. -/
theorem Binding.exists_slot_of_mem_denoted {b : Binding} {name : ColumnName} {e : Entity}
    (he : e ∈ b.denoted name) : ∃ t r, (t, some r) ∈ b.slots ∧ t.name = name.table ∧
      ∃ cell, (name.column, cell) ∈ r.cells ∧ cell.value = e := by
  unfold Binding.denoted at he
  split at he
  · next t r hfind =>
    obtain ⟨cell, hcell, rfl⟩ := Option.map_eq_some_iff.1 (Option.mem_toList.1 he)
    have hname : t.name = name.table := by simpa using List.find?_some hfind
    exact ⟨t, r, List.mem_of_find?_eq_some hfind, hname, cell, SourceRow.mem_of_cell? hcell, rfl⟩
  · cases he

/-- What a column denotes in a binding is held in this column by a row of its table. -/
theorem Binding.exists_of_mem_denoted {sources : List SourceTable} {b : Binding}
    (hb : b.From sources) {name : ColumnName} {e : Entity} (he : e ∈ b.denoted name) :
    ∃ t ∈ sources, t.name = name.table ∧
      ∃ r ∈ t.rows, ∃ cell, (name.column, cell) ∈ r.cells ∧ cell.value = e := by
  obtain ⟨t, r, hslot, hname, cell, hcell, hvalue⟩ := exists_slot_of_mem_denoted he
  obtain ⟨ht, hr⟩ := hb _ hslot
  exact ⟨t, ht, hname, r, hr r rfl, cell, hcell, hvalue⟩

/-- Bindings of one shape over the same values denote the same. -/
theorem Binding.Alike.denoted_eq {P : Entity → Entity → Prop} {Q : Cell → Cell → Prop} {b b' : Binding}
    (h : b.Alike P Q b') (hQ : ∀ x y, Q x y → x.value = y.value) (name : ColumnName) :
    b.denoted name = b'.denoted name := by
  have hslot := h.find? (p := fun slot => slot.1.name = name.table)
    (q := fun slot => slot.1.name = name.table) fun x y hxy => by rw [hxy.1]
  unfold Binding.denoted
  generalize b.slots.find? (fun slot => slot.1.name = name.table) = slot? at hslot ⊢
  generalize b'.slots.find? (fun slot => slot.1.name = name.table) = slot?' at hslot ⊢
  cases hslot with
  | none => rfl
  | @some slot slot' hslot =>
    obtain ⟨t, r⟩ := slot
    obtain ⟨t', r'⟩ := slot'
    obtain ⟨-, -, hrow⟩ := hslot
    cases hrow with
    | none => rfl
    | @some r r' hrow =>
      have hcell := hrow.cell? name.column
      dsimp only
      generalize r.cell? name.column = cell at hcell ⊢
      generalize r'.cell? name.column = cell' at hcell ⊢
      cases hcell with
      | none => rfl
      | some hcell => rw [Option.map_some, Option.map_some, hQ _ _ hcell]

namespace Expr

mutual

/-- The values that the leaves of an expression stand for in a scope. Under an aggregate a leaf stands for
its values in every row of the scope, one row after another. -/
def denoted : Expr → Scope → List Entity
  | .column name, s => s.denoted name
  | .speculative name, s => s.denoted name.toColumn
  | .member _ _ e, s | .unary _ e, s => e.denoted s
  | .binary _ e e', s => e.denoted s ++ e'.denoted s
  | .call _ args, s => denotedAll args s
  | .aggregate _ e, s => s.partition.flatMap fun b => e.denoted (.row b)
  | .literal _, _ | .aggregateRows _, _ => []

def denotedAll : List Expr → Scope → List Entity
  | [], _ => []
  | e :: rest, s => e.denoted s ++ denotedAll rest s

end

/-- Induction over an expression, all arguments of a call at once. -/
@[elab_as_elim, induction_eliminator]
theorem induct {motive : Expr → Prop} (literal : ∀ v, motive (.literal v))
    (column : ∀ name, motive (.column name)) (speculative : ∀ name, motive (.speculative name))
    (member : ∀ h a e, motive e → motive (.member h a e))
    (unary : ∀ op e, motive e → motive (.unary op e))
    (binary : ∀ op e e', motive e → motive e' → motive (.binary op e e'))
    (call : ∀ f args, (∀ e ∈ args, motive e) → motive (.call f args))
    (aggregate : ∀ func e, motive e → motive (.aggregate func e))
    (aggregateRows : ∀ func, motive (.aggregateRows func)) (e : Expr) : motive e :=
  Expr.rec (motive_2 := fun args => ∀ e ∈ args, motive e) literal column speculative member unary
    binary call aggregate aggregateRows nofun
    (fun _ _ h hs e he => (List.mem_cons.1 he).elim (fun h' => h' ▸ h) (hs e)) e

theorem denotedAll_eq (args : List Expr) (s : Scope) :
    denotedAll args s = args.flatMap fun e => e.denoted s := by
  induction args with
  | nil => rfl
  | cons e rest ih => rw [denotedAll, ih, List.flatMap_cons]

/-- The columns that the leaves of an expression name, those of cubes among them. -/
def leaves (e : Expr) : List ColumnName := e.columns ++ e.cubeColumns.map CubeColumn.toColumn

theorem mem_leaves_binary {op : BinaryOp} {e e' : Expr} {name : ColumnName} :
    name ∈ (binary op e e').leaves ↔ name ∈ e.leaves ∨ name ∈ e'.leaves := by
  simp only [leaves, columns, cubeColumns, List.map_append, List.mem_append]
  exact or_or_or_comm

theorem mem_leaves_call {f : String} {args : List Expr} {e : Expr} {name : ColumnName} (he : e ∈ args)
    (hname : name ∈ e.leaves) : name ∈ (call f args).leaves := by
  unfold leaves columns cubeColumns
  induction args with
  | nil => cases he
  | cons arg rest ih =>
    unfold columnsOfAll cubeColumnsOfAll
    rcases List.mem_cons.1 he with rfl | he
    · simp only [leaves, List.mem_append] at hname
      simp only [List.mem_append, List.map_append]
      exact hname.imp .inl .inl
    · have hrest := ih he
      simp only [List.mem_append, List.map_append] at hrest ⊢
      exact hrest.imp .inr .inr

/-- An expression denotes nothing but values in the columns of its leaves, in the bindings of its scope. -/
theorem exists_of_mem_denoted {e : Expr} {s : Scope} {x : Entity} (hx : x ∈ e.denoted s) :
    ∃ b ∈ s.partition, ∃ name ∈ e.leaves, x ∈ b.denoted name := by
  induction e generalizing s with
  | literal | aggregateRows => cases hx
  | column name | speculative name =>
    obtain ⟨b, hb, hx⟩ := List.mem_flatMap.1 hx
    exact ⟨b, hb, _, List.mem_singleton_self _, hx⟩
  | member _ _ e ih | unary _ e ih => exact ih hx
  | binary _ e e' ih ih' =>
    rcases List.mem_append.1 hx with hx | hx
    · obtain ⟨b, hb, name, hname, hx⟩ := ih hx
      exact ⟨b, hb, name, mem_leaves_binary.2 (.inl hname), hx⟩
    · obtain ⟨b, hb, name, hname, hx⟩ := ih' hx
      exact ⟨b, hb, name, mem_leaves_binary.2 (.inr hname), hx⟩
  | call f args ih =>
    rw [denoted, denotedAll_eq] at hx
    obtain ⟨arg, harg, hx⟩ := List.mem_flatMap.1 hx
    obtain ⟨b, hb, name, hname, hx⟩ := ih arg harg hx
    exact ⟨b, hb, name, mem_leaves_call harg hname, hx⟩
  | aggregate _ e ih =>
    obtain ⟨b, hb, hx⟩ := List.mem_flatMap.1 hx
    obtain ⟨b', hb', name, hname, hx⟩ := ih hx
    cases List.mem_singleton.1 hb'
    exact ⟨b, hb, name, hname, hx⟩

/-- What an expression denotes does not depend on payloads: it is the same in scopes of one shape over the
same values. -/
theorem denoted_eq_of_alike {K : Key → Key → Prop} {P : Entity → Entity → Prop} {Q : Cell → Cell → Prop}
    {e : Expr} {s s' : Scope} (h : s.Alike K P Q s') (hQ : ∀ x y, Q x y → x.value = y.value) :
    e.denoted s = e.denoted s' := by
  have hcolumn : ∀ {s s' : Scope} (name : ColumnName), s.Alike K P Q s' →
      s.denoted name = s'.denoted name := by
    intro s s' name h
    have heq := h.partition.map_eq fun _ _ hb => hb.denoted_eq hQ name
    rw [Scope.denoted, Scope.denoted, List.flatMap_def, List.flatMap_def, heq]
  induction e generalizing s s' with
  | literal | aggregateRows => rfl
  | column name | speculative name => exact hcolumn _ h
  | member _ _ e ih | unary _ e ih => exact ih h
  | binary _ e e' ih ih' => rw [denoted, denoted, ih h, ih' h]
  | call f args ih =>
    rw [denoted, denoted, denotedAll_eq, denotedAll_eq, List.flatMap_def, List.flatMap_def,
      List.map_congr_left fun e he => ih e he h]
  | aggregate _ e ih =>
    have heq := h.partition.map_eq fun _ _ hb => ih (.row hb)
    rw [denoted, denoted, List.flatMap_def, List.flatMap_def, heq]

variable {c : Catalog} {functions : Functions}

/-- The arguments of a call are evaluated one after another. -/
theorem evalAll_eq_ok_iff {args : List Expr} {s : Scope} {vs : List Scalar} {readings : Readings} :
    evalAll c functions args s = .ok (vs, readings) ↔
      ∃ results, args.mapM (fun e => e.eval c functions s) = .ok results ∧
        results.map Prod.fst = vs ∧ results.flatMap Prod.snd = readings := by
  induction args generalizing vs readings with
  | nil => simp [evalAll, pure, Except.pure]
  | cons e rest ih =>
    simp only [evalAll, List.mapM_cons, Except.bind_eq_ok_iff, Except.pure_eq_ok_iff, ih,
      Prod.mk.injEq, Prod.exists]
    constructor
    · rintro ⟨v, r, hv, _, _, ⟨results, hr, rfl, rfl⟩, rfl, rfl⟩
      exact ⟨_, ⟨v, r, hv, results, hr, rfl⟩, rfl, rfl⟩
    · rintro ⟨_, ⟨v, r, hv, results, hr, rfl⟩, rfl, rfl⟩
      exact ⟨v, r, hv, _, _, ⟨results, hr, rfl, rfl⟩, rfl, rfl⟩

theorem readings_of_readCell {b : Binding} {name : ColumnName} {v : Scalar} {readings : Readings}
    (h : readCell b name = .ok (v, readings)) : readings.filterMap id = b.denoted name := by
  obtain ⟨cell?, hl, hv⟩ := Except.bind_eq_ok_iff.1 h
  unfold Binding.lookup at hl
  unfold Binding.denoted
  split at hl
  · cases hl
  · next t r hfind =>
    rw [hfind]
    split at hl
    · cases hl
    · cases r with
      | none => cases hl; cases hv; rfl
      | some r =>
        dsimp only at hl ⊢
        split at hl
        · next cell hcell => cases hl; cases hv; simp [hcell]
        · cases hl

theorem readings_of_readColumn {s : Scope} {name : ColumnName} {v : Scalar} {readings : Readings}
    (h : readColumn s name = .ok (v, readings)) : readings.filterMap id = s.denoted name := by
  cases s with
  | row b => simpa [Scope.denoted, Scope.partition] using readings_of_readCell h
  | group key columns members =>
    unfold readColumn at h
    dsimp only at h
    split at h
    · cases h
    · obtain ⟨cells, hcells, hv⟩ := Except.bind_eq_ok_iff.1 h
      cases hv
      rw [List.mapM_eq_ok_iff] at hcells
      unfold Scope.denoted Scope.partition
      dsimp only
      clear h
      induction hcells with
      | nil => rfl
      | cons hb _ ih =>
        rw [List.flatMap_cons, List.flatMap_cons, List.filterMap_append, ih,
          readings_of_readCell hb]

/-- The readings of some computations are those of each one after another. -/
private theorem readings_flatMap {α : Type} {f : α → Except Error (Scalar × Readings)}
    {g : α → List Entity} {xs : List α} {results : List (Scalar × Readings)}
    (h : xs.mapM f = .ok results)
    (hfg : ∀ x ∈ xs, ∀ v readings, f x = .ok (v, readings) → readings.filterMap id = g x) :
    (results.flatMap Prod.snd).filterMap id = xs.flatMap g := by
  rw [List.mapM_eq_ok_iff] at h
  induction h with
  | nil => rfl
  | @cons x result xs results hx _ ih =>
    rw [List.flatMap_cons, List.flatMap_cons, List.filterMap_append,
      hfg x List.mem_cons_self _ _ hx, ih fun y hy => hfg y (List.mem_cons_of_mem _ hy)]

/-- An expression that is evaluated reads what its leaves stand for. -/
theorem readings_of_eval {e : Expr} {s : Scope} {v : Scalar} {readings : Readings}
    (h : e.eval c functions s = .ok (v, readings)) : readings.filterMap id = e.denoted s := by
  induction e generalizing s v readings with
  | literal => cases h; rfl
  | column name => exact readings_of_readColumn h
  | speculative name =>
    unfold eval at h
    split at h
    · exact readings_of_readColumn h
    · cases h
  | member hierarchy ancestor e ih =>
    obtain ⟨_, _, h⟩ := Except.bind_eq_ok_iff.1 h
    obtain ⟨⟨v', r⟩, he, h⟩ := Except.bind_eq_ok_iff.1 h
    obtain ⟨_, _, h⟩ := Except.bind_eq_ok_iff.1 h
    cases h
    exact ih he
  | unary op e ih =>
    obtain ⟨⟨v', r⟩, he, h⟩ := Except.bind_eq_ok_iff.1 h
    obtain ⟨_, _, h⟩ := Except.bind_eq_ok_iff.1 h
    cases h
    exact ih he
  | binary op e e' ih ih' =>
    obtain ⟨⟨v₁, r₁⟩, he, h⟩ := Except.bind_eq_ok_iff.1 h
    obtain ⟨⟨v₂, r₂⟩, he', h⟩ := Except.bind_eq_ok_iff.1 h
    obtain ⟨_, _, h⟩ := Except.bind_eq_ok_iff.1 h
    cases h
    rw [List.filterMap_append, ih he, ih' he', denoted]
  | call f args ih =>
    obtain ⟨⟨vs, r⟩, hargs, h⟩ := Except.bind_eq_ok_iff.1 h
    obtain ⟨_, _, h⟩ := Except.bind_eq_ok_iff.1 h
    cases h
    obtain ⟨results, hresults, -, rfl⟩ := evalAll_eq_ok_iff.1 hargs
    rw [denoted, denotedAll_eq]
    exact readings_flatMap hresults fun e he _ _ h => ih e he h
  | aggregate func e ih =>
    obtain ⟨results, hresults, h⟩ := Except.bind_eq_ok_iff.1 h
    obtain ⟨_, _, h⟩ := Except.bind_eq_ok_iff.1 h
    cases h
    rw [denoted]
    exact readings_flatMap hresults fun b _ _ _ h => ih h
  | aggregateRows func =>
    obtain ⟨_, _, h⟩ := Except.bind_eq_ok_iff.1 h
    cases h
    rfl

theorem nodup_sources {e : Expr} {s : Scope} {result : Evaluated}
    (h : e.evaluate c functions s = .ok result) : result.sources.Nodup := by
  obtain ⟨_, -, h⟩ := Except.bind_eq_ok_iff.1 h
  cases h
  exact .of_map _ (nodup_distinctById _)

theorem mem_denoted_of_mem_sources {e : Expr} {s : Scope} {result : Evaluated} {x : Entity}
    (h : e.evaluate c functions s = .ok result) (hx : x ∈ result.sources) : x ∈ e.denoted s := by
  obtain ⟨⟨v, readings⟩, he, h⟩ := Except.bind_eq_ok_iff.1 h
  cases h
  exact readings_of_eval he ▸ mem_of_mem_distinctById hx

/-- The sources of an evaluated expression are what its leaves stand for, each once and in the order of
reading, if no two values share an identity. -/
theorem sources_of_evaluate {e : Expr} {s : Scope} {result : Evaluated}
    (h : e.evaluate c functions s = .ok result) (hid : IdsIdentify (e.denoted s)) :
    result.sources = distinct (e.denoted s) := by
  obtain ⟨⟨v, readings⟩, he, h⟩ := Except.bind_eq_ok_iff.1 h
  cases h
  have hr := readings_of_eval he
  rw [← hr] at hid ⊢
  exact distinctById_eq_distinct hid

end Expr

end Provenance
