import Provenance.Proofs.Schema.Reread
import Provenance.Proofs.Timestamp
import Provenance.Snapshot.Encoding

/-!
# Snapshots read back from their texts

Everything in a snapshot is read back from its text but for the signs of its zeros, so long as the context of
the trail does not nest too deep: the text is written all the same, but no document with more than
`Json.depthLimit` arrays and objects inside each other is read. Only the context can be that deep. Main
statement: `Snapshot.Representable.ofText?_text`.
-/

namespace Provenance

open Document

variable {depth : Nat}

/-! ## What a snapshot has room for -/

/-- All identities that a snapshot tells lie below a number. -/
structure Snapshot.Below (s : Snapshot) (n : Nat) : Prop where
  trail : s.trail.id.number < n
  catalog : s.trail.catalog.number < n
  populated : ∀ p ∈ s.populated, p.id.number < n ∧ p.trail.number < n ∧ p.table.number < n
  rows : ∀ r ∈ s.rows, r.id.number < n ∧ r.populated.number < n
  values : ∀ v ∈ s.values, v.id.number < n ∧ v.row.number < n ∧ v.column.number < n
  edges : ∀ edge ∈ s.edges, edge.owner.id.number < n ∧ edge.target.id.number < n
  failures : ∀ f ∈ s.failures, f.entity.id.number < n

theorem Snapshot.Below.mono {s : Snapshot} {n n' : Nat} (h : s.Below n) (hle : n ≤ n') : s.Below n' where
  trail := Nat.lt_of_lt_of_le h.trail hle
  catalog := Nat.lt_of_lt_of_le h.catalog hle
  populated p hp := by
    have hids := h.populated p hp
    omega
  rows r hr := by
    have hids := h.rows r hr
    omega
  values v hv := by
    have hids := h.values v hv
    omega
  edges edge hedge := by
    have hids := h.edges edge hedge
    omega
  failures f hf := Nat.lt_of_lt_of_le (h.failures f hf) hle

/-- A snapshot that its text has room for: identities have 128 bits and numbers of rows 64, and the context is
made of plain values, the fields of every record in it in the order of their names. -/
structure Snapshot.Representable (s : Snapshot) : Prop where
  ids : s.Below (1 <<< 128)
  rows : ∀ r ∈ s.rows, r.number < 1 <<< 64
  plain : (Json.object s.trail.context).Plain
  sorted : (Json.object s.trail.context).sorted = .object s.trail.context

/-- The snapshot, its zeros without a sign. -/
def Snapshot.unsigned (s : Snapshot) : Snapshot :=
  { s with values := s.values.map fun v => { v with payload := v.payload.unsigned } }

/-- Values are equal, their payloads being equal as payloads are. -/
structure Value.Equal (v v' : Value) : Prop where
  id : v.id = v'.id
  row : v.row = v'.row
  column : v.column = v'.column
  origin : v.origin = v'.origin
  payload : v.payload.eqv v'.payload

/-- Snapshots are equal: their payloads have equal values, and everything else is the same. -/
structure Snapshot.Equal (s s' : Snapshot) : Prop where
  trail : s.trail = s'.trail
  populated : s.populated = s'.populated
  rows : s.rows = s'.rows
  values : List.Forall₂ Value.Equal s.values s'.values
  edges : s.edges = s'.edges
  failures : s.failures = s'.failures

theorem Snapshot.equal_unsigned (s : Snapshot) : s.Equal s.unsigned where
  trail := rfl
  populated := rfl
  rows := rfl
  values := List.forall₂_map_right_iff.2 <| List.forall₂_same.2 fun v _ =>
    ⟨rfl, rfl, rfl, rfl, Scalar.eqv_of_unsigned_eq v.payload.unsigned_unsigned.symm⟩
  edges := rfl
  failures := rfl

/-! ## Parts of a snapshot -/

theorem Document.list?_encode {β : Type} {read : Json → Option β} {encode : β → Json} {xs : List β}
    (h : ∀ x ∈ xs, read (encode x) = some x) : list? read (Json.array (xs.map encode)) = some xs :=
  (faithful_id.list? (g := id) h).trans (congrArg some xs.map_id)

theorem Id.ofDocument?_encode {id : Id} (h : id.number < 1 <<< 128) : Id.ofDocument? id.encode = some id := by
  unfold Id.ofDocument? Id.encode
  rw [faithful_id.text?, Option.bind_eq_bind, Option.bind_some, read?_text h]

theorem Timestamp.ofDocument?_encode (t : Timestamp) : Timestamp.ofDocument? t.encode = some t := by
  unfold Timestamp.ofDocument? Timestamp.encode
  rw [faithful_id.text?, Option.bind_eq_bind, Option.bind_some, t.read?_text]

theorem isMissing_null : isMissing Json.null = true := rfl

theorem Timestamp.isMissing_encode (t : Timestamp) : isMissing t.encode = false := rfl

/-- Where the two origins give kinds with different names, a name tells the origin. -/
theorem Origin.ofKind?_name {kindOf : Origin → Entity.Kind}
    (hne : (kindOf .database).name ≠ (kindOf .derived).name) (origin : Origin) :
    ofKind? kindOf (kindOf origin).name = some origin := by
  cases origin <;> simp [ofKind?, hne]

theorem readCount?_int {n : Nat} (h : n < 1 <<< 64) : readCount? (.int n) = some n := by
  have hcount : count? (Json.int n) = some n := by simp [count?, Json.toCount?]
  unfold readCount?
  rw [hcount, Option.bind_eq_bind, Option.bind_some, if_pos h]

theorem Entity.read?_encode {e : Entity} (h : e.id.number < 1 <<< 128) :
    Entity.read? (depth + 1) e.encode = some e := by
  have hrecord : record? ["kind", "id"] e.encode = _ := faithful_id.record? rfl (by decide)
  unfold Entity.read?
  simp [hrecord, faithful_id.name?, e.kind.ofName?_name, Id.ofDocument?_encode h]

theorem Edge.read?_encode {edge : Edge}
    (h : edge.owner.id.number < 1 <<< 128 ∧ edge.target.id.number < 1 <<< 128) :
    Edge.read? (depth + 2) edge.encode = some edge := by
  have hrecord : record? ["owner", "kind", "target"] edge.encode = _ := faithful_id.record? rfl (by decide)
  unfold Edge.read?
  simp [hrecord, faithful_id.name?, edge.kind.ofName?_name, Entity.read?_encode h.1, Entity.read?_encode h.2]

theorem Populated.read?_encode {p : Populated}
    (h : p.id.number < 1 <<< 128 ∧ p.trail.number < 1 <<< 128 ∧ p.table.number < 1 <<< 128) :
    Populated.read? (depth + 1) p.encode = some p := by
  have hrecord : record? ["id", "trail_id", "table_id", "kind", "created_at"] p.encode = _ :=
    faithful_id.record? rfl (by decide)
  have hkind : Origin.ofKind? Origin.tableKind p.origin.tableKind.name = _ :=
    Origin.ofKind?_name (by decide) p.origin
  unfold Populated.read?
  simp [hrecord, faithful_id.name?, Id.ofDocument?_encode h.1, Id.ofDocument?_encode h.2.1,
    Id.ofDocument?_encode h.2.2, hkind, Timestamp.ofDocument?_encode]

theorem Row.read?_encode {r : Row} (h : r.id.number < 1 <<< 128 ∧ r.populated.number < 1 <<< 128)
    (hnumber : r.number < 1 <<< 64) : Row.read? (depth + 1) r.encode = some r := by
  have hrecord : record? ["id", "populated_table_id", "row_number", "kind"] r.encode = _ :=
    faithful_id.record? rfl (by decide)
  have hkind : Origin.ofKind? Origin.rowKind r.origin.rowKind.name = _ :=
    Origin.ofKind?_name (by decide) r.origin
  unfold Row.read?
  simp [hrecord, faithful_id.name?, Id.ofDocument?_encode h.1, Id.ofDocument?_encode h.2,
    readCount?_int hnumber, hkind]

theorem Scalar.nesting_encode_le (v : Scalar) : v.encode.nesting ≤ 1 := by
  cases v <;> simp [encode, Json.nesting, Json.nestingOfFields]

theorem Value.read?_encode {v : Value}
    (h : v.id.number < 1 <<< 128 ∧ v.row.number < 1 <<< 128 ∧ v.column.number < 1 <<< 128) :
    Value.read? (depth + 2) v.encode = some { v with payload := v.payload.unsigned } := by
  have hrecord : record? ["id", "row_id", "column_id", "payload", "kind"] v.encode = _ :=
    faithful_id.record? rfl (by decide)
  have hpayload := Scalar.read?_encode faithful_id v.payload
    (Nat.le_trans v.payload.nesting_encode_le (Nat.le_add_left 1 depth))
  have hkind : Origin.ofKind? Origin.valueKind v.origin.valueKind.name = _ :=
    Origin.ofKind?_name (by decide) v.origin
  unfold Value.read?
  simp [hrecord, faithful_id.name?, Id.ofDocument?_encode h.1, Id.ofDocument?_encode h.2.1,
    Id.ofDocument?_encode h.2.2, hpayload, hkind]

theorem Failure.read?_encode {f : Failure} (h : f.entity.id.number < 1 <<< 128) :
    Failure.read? (depth + 2) f.encode = some f := by
  have hrecord : record? ["entity", "table", "code", "message"] f.encode = _ :=
    faithful_id.record? rfl (by decide)
  unfold Failure.read?
  simp [hrecord, faithful_id.text?, Entity.read?_encode h]

namespace Trail

variable {t : Trail}

/-- A context is read if it does not nest too deep. -/
theorem readContext?_object (hplain : (Json.object t.context).Plain)
    (hsorted : (Json.object t.context).sorted = .object t.context) :
    readContext? depth (some (.object t.context)) =
      if (Json.object t.context).nesting ≤ depth then some t.context else none := by
  change ((Json.object t.context).read? depth).bind _ = _
  split_ifs with hdepth
  · rw [hplain.read?_eq_some hdepth, hsorted]
    rfl
  · rw [hplain.read?_eq_none (Nat.not_le.1 hdepth)]
    rfl

/-- A trail is read back if its context does not nest too deep. -/
theorem read?_encode (hid : t.id.number < 1 <<< 128) (hcatalog : t.catalog.number < 1 <<< 128)
    (hplain : (Json.object t.context).Plain)
    (hsorted : (Json.object t.context).sorted = .object t.context) :
    read? (depth + 1) t.encode = if (Json.object t.context).nesting ≤ depth then some t else none := by
  have hrecord : record? ["id", "name", "created_at", "context", "metadata_trail_id", "metadata_fingerprint",
      "status", "finished_at"] t.encode = _ := faithful_id.record? rfl (by decide)
  have hcontext : readContext? depth (some (.object t.context)) = _ := readContext?_object hplain hsorted
  obtain ⟨id, name, createdAt, context, catalog, fingerprint, status, finishedAt⟩ := t
  unfold read?
  cases finishedAt <;>
    simp only [hrecord, faithful_id.text?, faithful_id.name?, Id.ofDocument?_encode hid,
      Id.ofDocument?_encode hcatalog, Timestamp.ofDocument?_encode, isMissing_null,
      Timestamp.isMissing_encode, Status.ofName?_name, hcontext, List.map_cons, List.map_nil,
      Option.bind_eq_bind, Option.bind_some, Option.map_some, if_true, Bool.false_eq_true, if_false] <;>
    split_ifs <;> rfl

end Trail

namespace Snapshot

variable {s : Snapshot}

theorem Representable.plain_encode (h : s.Representable) : s.encode.Plain := by
  have hrows : ∀ r ∈ s.rows, r.encode.Plain := by
    intro r hr
    have hlt := h.rows r hr
    simp [Row.encode, Id.encode, Json.leastInt, Json.intBound]
    omega
  have htrail : s.trail.encode.Plain := by
    cases hfinished : s.trail.finishedAt <;>
      simpa [Trail.encode, hfinished, Id.encode, Timestamp.encode] using h.plain
  simpa [encode, htrail, Populated.encode, Value.encode, Edge.encode, Entity.encode, Failure.encode,
    Id.encode, Timestamp.encode, Scalar.plain_encode] using hrows

/-- A snapshot is read back, its zeros without a sign, if the context of its trail does not nest too deep. -/
theorem Representable.read?_encode (h : s.Representable) : read? (depth + 4) s.encode =
    if (Json.object s.trail.context).nesting ≤ depth + 2 then some s.unsigned else none := by
  have htrail : Trail.read? (depth + 3) s.trail.encode = _ :=
    Trail.read?_encode h.ids.trail h.ids.catalog h.plain h.sorted
  have hpopulated : list? (Populated.read? (depth + 2)) (Json.array (s.populated.map Populated.encode)) = _ :=
    list?_encode fun p hp => Populated.read?_encode (h.ids.populated p hp)
  have hrows : list? (Row.read? (depth + 2)) (Json.array (s.rows.map Row.encode)) = _ :=
    list?_encode fun r hr => Row.read?_encode (h.ids.rows r hr) (h.rows r hr)
  have hvalues : list? (Value.read? (depth + 2)) (Json.array (s.values.map Value.encode)) = _ :=
    faithful_id.list? fun v hv => Value.read?_encode (h.ids.values v hv)
  have hedges : list? (Edge.read? (depth + 2)) (Json.array (s.edges.map Edge.encode)) = _ :=
    list?_encode fun edge hedge => Edge.read?_encode (h.ids.edges edge hedge)
  have hfailures : list? (Failure.read? (depth + 2)) (Json.array (s.failures.map Failure.encode)) = _ :=
    list?_encode fun f hf => Failure.read?_encode (h.ids.failures f hf)
  have hrecord : record? ["trail", "populated_tables", "rows", "values", "edges", "failures"] s.encode = _ :=
    faithful_id.record? rfl (by decide)
  unfold read?
  split_ifs at htrail ⊢ with hdepth <;>
    simp [hrecord, htrail, hpopulated, hrows, hvalues, hedges, hfailures, listOrEmpty?, unsigned]

/-- A snapshot is read back from its text, its zeros without a sign, if the context of its trail leaves room for
the two records that it stands in. Otherwise nothing is. -/
theorem Representable.ofText?_text (h : s.Representable) : ofText? s.text =
    if (Json.object s.trail.context).nesting + 2 ≤ Json.depthLimit then some s.unsigned else none := by
  rw [ofText?, text, h.plain_encode.parse?_pretty, Option.bind_eq_bind, Option.bind_some,
    show Json.depthLimit = 123 + 4 from rfl, h.read?_encode]
  exact if_congr (by omega) rfl rfl

end Snapshot

end Provenance
