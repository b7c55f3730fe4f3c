import Provenance.Proofs.Evaluation.Footprint
import Provenance.Proofs.Rows.Alike

/-!
# Lineage is complete

What an expression evaluates to depends on no payload beyond those of its recorded sources: in every other
scope of the same shape that agrees on them, it evaluates to the same value with the same lineage
(`Expr.evaluate_of_agree`). In a group this needs that the key is that of the first member, as it is in
every scope that an approach makes (`Scope.Produced`).
-/

namespace Provenance

/-- Cells of one value. Their payloads agree if the value is known. -/
def Cell.Agree (known : Entity → Prop) (a b : Cell) : Prop :=
  a.value = b.value ∧ (known a.value → a.payload = b.payload)

/-- Scopes of one shape: the same tables and columns, the same rows and empty places, the same values. In
the cells of known values they hold the same payloads, in all others any. -/
def Scope.Agree (known : Entity → Prop) (s s' : Scope) : Prop :=
  s.Alike (fun _ _ => True) Eq (Cell.Agree known) s'

/-- A scope that an approach makes over tables of a store whose values have identities of their own. -/
inductive Scope.Produced (c : Catalog) (functions : Functions) : Scope → Prop
  | intro {store : Store} {a : Approach} {sources : List SourceTable} {frames : List RowFrame}
      {frame : RowFrame} (ids : (store.values.map Value.id).Nodup)
      (bound : ∀ t ∈ sources, ∃ table, SourceTable.bind c store table = .ok t)
      (made : a.createRows c functions sources = .ok frames) (mem : frame ∈ frames) :
      Produced c functions frame.scope

theorem Scope.Produced.keyed {c : Catalog} {functions : Functions} {s : Scope}
    (h : s.Produced c functions) : s.Keyed := by
  cases h with
  | intro _ _ made mem => exact (Approach.framed_of_mem_createRows made mem).keyed

/-- No two values that an expression denotes in a produced scope share an identity. -/
theorem Scope.Produced.idsIdentify {c : Catalog} {functions : Functions} {s : Scope}
    (h : s.Produced c functions) (e : Expr) : IdsIdentify (e.denoted s) := by
  cases h with
  | @intro store a sources frames frame ids bound made mem =>
    have hids : (store.values.map Value.entity).map Entity.id = store.values.map Value.id := by
      rw [List.map_map]
      rfl
    refine (idsIdentify_of_nodup (hids ▸ ids)).mono fun x hx => ?_
    obtain ⟨b, hb, name, -, hx⟩ := Expr.exists_of_mem_denoted hx
    have hfrom := (Approach.framed_of_mem_createRows made mem).bound b hb
    obtain ⟨t, ht, -, r, hr, cell, hcell, rfl⟩ := Binding.exists_of_mem_denoted hfrom hx
    obtain ⟨table, htable⟩ := bound t ht
    obtain ⟨v, hv, rfl⟩ := SourceTable.exists_value_of_bind htable hr hcell
    exact List.mem_map.2 ⟨v, hv, rfl⟩

namespace Expr

variable {known : Entity → Prop}

/-- Some readings are all known. -/
private def Known (known : Entity → Prop) (readings : Readings) : Prop :=
  ∀ x ∈ readings.filterMap id, known x

private theorem Known.left {r r' : Readings} (h : Known known (r ++ r')) : Known known r :=
  fun x hx => h x (by rw [List.filterMap_append]; exact List.mem_append_left _ hx)

private theorem Known.right {r r' : Readings} (h : Known known (r ++ r')) : Known known r' :=
  fun x hx => h x (by rw [List.filterMap_append]; exact List.mem_append_right _ hx)

theorem readCell_of_agree {b b' : Binding} (hb : b.Alike Eq (Cell.Agree known) b')
    {name : ColumnName} {v : Scalar} {readings : Readings}
    (h : readCell b name = .ok (v, readings)) (hk : Known known readings) :
    readCell b' name = .ok (v, readings) := by
  obtain ⟨cell, hl, hv⟩ := Except.bind_eq_ok_iff.1 h
  have hrel := hb.lookup name
  rw [hl] at hrel
  obtain ⟨cell', hl', hcell⟩ := hrel.of_ok
  refine Except.bind_eq_ok_iff.2 ⟨cell', hl', ?_⟩
  cases hcell with
  | none => exact hv
  | @some cell cell' hcell =>
    cases hv
    obtain ⟨hvalue, hpayload⟩ := hcell
    have hknown : known cell.value := hk _ (by simp)
    simp only [← hvalue, ← hpayload hknown]
    rfl

/-- Computations that agree on what is known agree on a list, if all of its readings are known. -/
private theorem mapM_of_agree {α β : Type} {R : α → β → Prop}
    {f : α → Except Error (Scalar × Readings)} {g : β → Except Error (Scalar × Readings)}
    {xs : List α} {ys : List β} (hR : List.Forall₂ R xs ys)
    (hfg : ∀ x y, R x y → ∀ v readings, f x = .ok (v, readings) → Known known readings →
      g y = .ok (v, readings))
    {results : List (Scalar × Readings)} (h : xs.mapM f = .ok results)
    (hk : Known known (results.flatMap Prod.snd)) : ys.mapM g = .ok results := by
  rw [List.mapM_eq_ok_iff] at h ⊢
  induction h generalizing ys with
  | nil =>
    cases hR
    exact .nil
  | cons hx _ ih =>
    cases hR with
    | cons hxy hR =>
      rw [List.flatMap_cons] at hk
      exact .cons (hfg _ _ hxy _ _ hx hk.left) (ih hR hk.right)

theorem payload_of_readCell {b : Binding} {name : ColumnName} {v : Scalar} {readings : Readings}
    (h : readCell b name = .ok (v, readings)) : b.payload name = .ok v := by
  obtain ⟨cell, hl, hv⟩ := Except.bind_eq_ok_iff.1 h
  refine Except.bind_eq_ok_iff.2 ⟨cell, hl, ?_⟩
  cases cell with
  | none => cases hv; rfl
  | some cell => cases hv; rfl

/-- In the key of a group a column has the payload of the first member. -/
theorem payload_of_key {first : Binding} {key : List Scalar} {columns : List ColumnName}
    {name : ColumnName} {i : Nat} (hkey : columns.mapM first.payload = .ok key)
    (hi : columns.idxOf? name = some i) : first.payload name = .ok (key.getD i .null) := by
  rw [List.mapM_eq_ok_iff] at hkey
  induction hkey generalizing i with
  | nil => cases hi
  | @cons column v columns key hcolumn _ ih =>
    rw [List.idxOf?_cons] at hi
    split at hi
    · next heq =>
      cases hi
      rw [← eq_of_beq heq]
      exact hcolumn
    · obtain ⟨j, hj, rfl⟩ := Option.map_eq_some_iff.1 hi
      exact ih hj

theorem readColumn_of_agree {s s' : Scope} (hs : s.Agree known s') (hkey : s.Keyed)
    (hkey' : s'.Keyed) {name : ColumnName} {v : Scalar} {readings : Readings}
    (h : readColumn s name = .ok (v, readings)) (hk : Known known readings) :
    readColumn s' name = .ok (v, readings) := by
  cases hs with
  | row hb => exact readCell_of_agree hb h hk
  | @group key key' columns members members' _ hmembers =>
    unfold readColumn at h ⊢
    dsimp only at h ⊢
    split at h
    · cases h
    · next i hi =>
      obtain ⟨cells, hcells, h⟩ := Except.bind_eq_ok_iff.1 h
      cases h
      have hcells' := mapM_of_agree hmembers (fun _ _ hb _ _ => readCell_of_agree hb) hcells hk
      -- The first member has been read, so both keys hold its payload.
      obtain ⟨first, rest, rfl, hfirst⟩ := hkey
      obtain ⟨first', rest', rfl, hfirst'⟩ := hkey'
      obtain ⟨⟨w, r⟩, more, hread, hmore, rfl⟩ :=
        List.forall₂_cons_left_iff.1 (List.mapM_eq_ok_iff.1 hcells)
      obtain ⟨hread', -⟩ := List.forall₂_cons.1 (List.mapM_eq_ok_iff.1 hcells')
      have hw := (payload_of_key hfirst hi).symm.trans (payload_of_readCell hread)
      have hw' := (payload_of_key hfirst' hi).symm.trans (payload_of_readCell hread')
      refine Except.bind_eq_ok_iff.2 ⟨_, hcells', ?_⟩
      rw [Except.ok.inj hw, Except.ok.inj hw']
      rfl

variable {c : Catalog} {functions : Functions}

/-- An expression has the same value and readings in every scope that agrees on all that it reads. -/
theorem eval_of_agree {e : Expr} {s s' : Scope} (hs : s.Agree known s') (hkey : s.Keyed)
    (hkey' : s'.Keyed) {v : Scalar} {readings : Readings}
    (h : e.eval c functions s = .ok (v, readings)) (hk : Known known readings) :
    e.eval c functions s' = .ok (v, readings) := by
  induction e generalizing s s' v readings with
  | literal => exact h
  | column name => exact readColumn_of_agree hs hkey hkey' h hk
  | speculative name =>
    unfold eval at h ⊢
    split at h
    · next hc =>
      rw [if_pos hc]
      exact readColumn_of_agree hs hkey hkey' h hk
    · cases h
  | member hierarchy ancestor e ih =>
    obtain ⟨hier, hh, h⟩ := Except.bind_eq_ok_iff.1 h
    obtain ⟨⟨w, r⟩, he, h⟩ := Except.bind_eq_ok_iff.1 h
    obtain ⟨u, hu, h⟩ := Except.bind_eq_ok_iff.1 h
    cases h
    exact Except.bind_eq_ok_iff.2 ⟨hier, hh, Except.bind_eq_ok_iff.2
      ⟨_, ih hs hkey hkey' he hk, Except.bind_eq_ok_iff.2 ⟨v, hu, rfl⟩⟩⟩
  | unary op e ih =>
    obtain ⟨⟨w, r⟩, he, h⟩ := Except.bind_eq_ok_iff.1 h
    obtain ⟨u, hu, h⟩ := Except.bind_eq_ok_iff.1 h
    cases h
    exact Except.bind_eq_ok_iff.2
      ⟨_, ih hs hkey hkey' he hk, Except.bind_eq_ok_iff.2 ⟨v, hu, rfl⟩⟩
  | binary op e e' ih ih' =>
    obtain ⟨⟨w, r⟩, he, h⟩ := Except.bind_eq_ok_iff.1 h
    obtain ⟨⟨w', r'⟩, he', h⟩ := Except.bind_eq_ok_iff.1 h
    obtain ⟨u, hu, h⟩ := Except.bind_eq_ok_iff.1 h
    cases h
    exact Except.bind_eq_ok_iff.2 ⟨_, ih hs hkey hkey' he hk.left, Except.bind_eq_ok_iff.2
      ⟨_, ih' hs hkey hkey' he' hk.right, Except.bind_eq_ok_iff.2 ⟨v, hu, rfl⟩⟩⟩
  | call f args ih =>
    obtain ⟨⟨vs, r⟩, hargs, h⟩ := Except.bind_eq_ok_iff.1 h
    obtain ⟨u, hu, h⟩ := Except.bind_eq_ok_iff.1 h
    cases h
    obtain ⟨results, hresults, hvs, rfl⟩ := evalAll_eq_ok_iff.1 hargs
    have hsame : List.Forall₂ (fun e e' => e = e' ∧ e ∈ args) args args :=
      List.forall₂_same.2 fun e he => ⟨rfl, he⟩
    have hresults' := mapM_of_agree hsame
      (g := fun e => e.eval c functions s')
      (fun e _ he _ _ h hk => he.1 ▸ ih e he.2 hs hkey hkey' h hk) hresults hk
    exact Except.bind_eq_ok_iff.2 ⟨_, evalAll_eq_ok_iff.2 ⟨results, hresults', hvs, rfl⟩,
      Except.bind_eq_ok_iff.2 ⟨v, hu, rfl⟩⟩
  | aggregate func e ih =>
    obtain ⟨results, hresults, h⟩ := Except.bind_eq_ok_iff.1 h
    obtain ⟨u, hu, h⟩ := Except.bind_eq_ok_iff.1 h
    cases h
    have hresults' := mapM_of_agree hs.partition
      (g := fun b => e.eval c functions (.row b))
      (fun _ _ hb _ _ h hk => ih (.row hb) trivial trivial h hk) hresults hk
    exact Except.bind_eq_ok_iff.2 ⟨_, hresults', Except.bind_eq_ok_iff.2 ⟨v, hu, rfl⟩⟩
  | aggregateRows func =>
    obtain ⟨u, hu, h⟩ := Except.bind_eq_ok_iff.1 h
    cases h
    refine Except.bind_eq_ok_iff.2 ⟨v, ?_, rfl⟩
    unfold countRows at hu ⊢
    rwa [← hs.partition.length_eq]

/-- An expression that is evaluated in a produced scope has the same value and the same lineage in every
scope of the same shape that agrees on the payloads of its sources. That scope need not be produced, as
long as the key of a group is that of its first member. -/
theorem evaluate_of_agree {e : Expr} {s s' : Scope} {result : Evaluated}
    (hs : s.Produced c functions) (hs' : s'.Keyed) (h : e.evaluate c functions s = .ok result)
    (hagree : s.Agree (· ∈ result.sources) s') :
    e.evaluate c functions s' = .ok result := by
  have hsources := sources_of_evaluate h (hs.idsIdentify e)
  obtain ⟨⟨v, readings⟩, he, h⟩ := Except.bind_eq_ok_iff.1 h
  refine Except.bind_eq_ok_iff.2 ⟨(v, readings), ?_, h⟩
  refine eval_of_agree hagree hs.keyed hs' he fun x hx => ?_
  have hx : x ∈ e.denoted s := readings_of_eval he ▸ hx
  exact hsources ▸ mem_distinct.2 hx

end Expr

namespace Sample

/-- A table of sales. -/
def sale : Table := .database ⟨1⟩ "sale"

def saleCatalog : Catalog :=
  ⟨⟨0⟩, "shop", "", [sale],
    [⟨⟨2⟩, "region", sale.id, .field .text⟩, ⟨⟨3⟩, "amount", sale.id, .field .integer⟩], []⟩

/-- One sale of three in the north. -/
def saleStore : Store :=
  ⟨[⟨⟨⟨10⟩, ⟨9⟩, sale.id, .database, .epoch⟩, [⟨2⟩, ⟨3⟩], [⟨⟨11⟩, ⟨10⟩, 0, .database⟩],
    [⟨⟨12⟩, ⟨11⟩, ⟨2⟩, .text "north", .database⟩,
      ⟨⟨13⟩, ⟨11⟩, ⟨3⟩, .int (.ofCount 3), .database⟩]⟩]⟩

/-- The row of the sale, made in some region. -/
def saleRow (region : String) : SourceRow :=
  ⟨⟨.databaseRow, ⟨11⟩⟩, [("region", ⟨⟨.databaseValue, ⟨12⟩⟩, .text region⟩),
    ("amount", ⟨⟨.databaseValue, ⟨13⟩⟩, .int (.ofCount 3)⟩)]⟩

def saleSource (region : String) : SourceTable := ⟨"sale", ["region", "amount"], [saleRow region]⟩

/-- The sale as a group of its region. -/
def saleScope (region : String) : Scope :=
  .group [.text region] [⟨"sale", "region"⟩] [.single (saleSource region) (saleRow region)]

def sumOfSales : Expr := .aggregate .sum (.column ⟨"sale", "amount"⟩)

theorem produced_saleScope : (saleScope "north").Produced saleCatalog .empty := by
  have hids : (saleStore.values.map Value.id).Nodup := by decide
  have hbound : SourceTable.bind saleCatalog saleStore sale = .ok (saleSource "north") := rfl
  have hmade : (Approach.group "sale" [⟨"sale", "region"⟩]).createRows saleCatalog .empty
      [saleSource "north"] = .ok [.ofScope (saleScope "north")] := rfl
  exact .intro hids (fun t ht => ⟨sale, List.mem_singleton.1 ht ▸ hbound⟩) hmade (List.mem_singleton_self _)

/-- The region has no part in the amount. -/
theorem evaluate_saleScope :
    ∃ result, sumOfSales.evaluate saleCatalog .empty (saleScope "north") = .ok result ∧
      sumOfSales.evaluate saleCatalog .empty (saleScope "south") = .ok result := by
  let amount : Entity := ⟨.databaseValue, ⟨13⟩⟩
  have hnorth : sumOfSales.evaluate saleCatalog .empty (saleScope "north") =
      .ok ⟨.int (.ofCount 3), [amount], false⟩ := rfl
  have hagree : (saleScope "north").Agree (· ∈ [amount]) (saleScope "south") :=
    .group trivial (.cons (.cons ⟨rfl, rfl, .some ⟨rfl, .cons ⟨rfl, rfl, fun h => absurd h (by decide)⟩
      (.cons ⟨rfl, rfl, fun _ => rfl⟩ .nil)⟩⟩ .nil) .nil)
  exact ⟨_, hnorth, Expr.evaluate_of_agree produced_saleScope ⟨_, _, rfl, rfl⟩ hnorth hagree⟩

end Sample

end Provenance
