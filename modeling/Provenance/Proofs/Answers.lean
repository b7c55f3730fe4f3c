import Provenance.Proofs.Actions
import Provenance.Proofs.Edge.Moved
import Provenance.Proofs.Lineage.Reports
import Provenance.Proofs.Lineage.Resolution

/-!
# Answers with other identities

What a run tells of a thing, of its lineage and of itself does not depend on which identities it takes: two runs
whose identities are moved on answer every question alike (`Run.SameAnswers`, `Run.Moved.sameAnswers`).
-/

namespace Provenance

/-- A thing with the identities that belong to a trail renamed. It may have been made at another time. -/
inductive Subject.Image (ρ : Id → Id) : Subject → Subject → Prop
  | table (t : Table) : Subject.Image ρ (.table t) (.table t)
  | creation (c : Creation) : Subject.Image ρ (.creation c) (.creation c)
  | column (col : Column) : Subject.Image ρ (.column col) (.column col)
  | populated {p p' : Populated} (h : p.Image ρ p') : Subject.Image ρ (.populated p) (.populated p')
  | row (r : Row) : Subject.Image ρ (.row r) (.row (r.rename ρ))
  | value (v : Value) : Subject.Image ρ (.value v) (.value (v.rename ρ))

def Reached.rename (ρ : Id → Id) (reached : Reached) : Reached :=
  { reached with entity := reached.entity.rename ρ }

/-- A report with its identities renamed. -/
def LineageReport.rename (ρ : Id → Id) (report : LineageReport) : LineageReport :=
  ⟨report.entity.rename ρ, report.direct.map (Edge.rename ρ), report.transitive.map (Reached.rename ρ),
    report.leaves.map (Entity.rename ρ), report.maxDepth⟩

/-- A graph with its identities renamed. What entities are called stays. -/
def LineageGraph.rename (ρ : Id → Id) (graph : LineageGraph) : LineageGraph :=
  ⟨graph.nodes.map fun node => ⟨node.entity.rename ρ, node.label⟩, graph.edges.map (Edge.rename ρ)⟩

/-- A summary with the identity of the trail renamed. All numbers stay. -/
def Summary.rename (ρ : Id → Id) (summary : Summary) : Summary := { summary with trail := ρ summary.trail }

/-- A snapshot with its identities renamed. It may have been made at another time. -/
structure Snapshot.Image (ρ : Id → Id) (s s' : Snapshot) : Prop where
  trail : s.trail.Image ρ s'.trail
  populated : List.Forall₂ (Populated.Image ρ) s.populated s'.populated
  rows : s'.rows = s.rows.map (Row.rename ρ)
  values : s'.values = s.values.map (Value.rename ρ)
  edges : s'.edges = s.edges.map (Edge.rename ρ)
  failures : s'.failures = s.failures

/-! ## Things and what they are called -/

section

variable {ρ : Id → Id} {c : Catalog} {n n' : Nat} {s s' : Store} {e : Entity}

theorem Subject.Image.kind {subject subject' : Subject} (h : subject.Image ρ subject') :
    subject'.entity.kind = subject.entity.kind := by
  cases h with
  | populated h => exact congrArg Origin.tableKind h.origin
  | table | creation | column | row | value => rfl

theorem id_of_findSubject? {subject : Subject} (h : findSubject? c s e = some subject) :
    subject.entity.id = e.id := by
  unfold findSubject? at h
  split at h
  all_goals
    obtain ⟨thing, hthing, rfl⟩ := Option.map_eq_some_iff.1 h
  case h_1 | h_2 => exact (Catalog.mem_of_tableById? hthing).2
  case h_3 =>
    obtain ⟨t, ht, hc⟩ := Option.bind_eq_some_iff.1 hthing
    obtain ⟨-, creation, hc', hid⟩ := Catalog.mem_of_tableOfCreation? ht
    cases hc.symm.trans hc'
    exact hid
  case h_4 | h_5 =>
    have hid : thing.id = e.id := by simpa using List.find?_some hthing
    exact thing.entity_id.trans hid
  case h_6 | h_7 | h_8 | h_9 | h_10 | h_11 => exact of_decide_eq_true (Store.of_last?_eq_some hthing).2

variable (hρ : Id.Moves c n n' ρ) (hstore : s.Image ρ s') (happart : s.Apart ρ)
include hρ hstore happart

theorem findSubject?_rel (e : Entity) :
    Option.Rel (Subject.Image ρ) (findSubject? c s e) (findSubject? c s' (e.rename ρ)) := by
  have hrenamed : ∀ {α : Type} {f g : α → Subject} (x : Option α), (∀ a, Subject.Image ρ (f a) (g a)) →
      Option.Rel (Subject.Image ρ) (x.map f) (x.map g) := by
    intro α f g x hfg
    cases x with
    | none => exact .none
    | some a => exact .some (hfg a)
  obtain ⟨kind, id⟩ := e
  have htable : Option.Rel (Subject.Image ρ) ((c.tableById? id).map .table)
      ((c.tableById? (ρ id)).map .table) := by
    rw [hρ.tableById?]
    exact hrenamed _ .table
  have hcreation : Option.Rel (Subject.Image ρ) ((c.creationById? id).map .creation)
      ((c.creationById? (ρ id)).map .creation) := by
    rw [hρ.creationById?]
    exact hrenamed _ .creation
  have hcolumn : Option.Rel (Subject.Image ρ) ((c.columnById? id).map .column)
      ((c.columnById? (ρ id)).map .column) := by
    rw [hρ.columnById?]
    exact hrenamed _ .column
  have hpopulated : Option.Rel (Subject.Image ρ) ((s.populated? id).map .populated)
      ((s'.populated? (ρ id)).map .populated) := (hstore.populated? happart).map fun _ _ => .populated
  have hrow : Option.Rel (Subject.Image ρ) ((s.row? id).map .row) ((s'.row? (ρ id)).map .row) := by
    rw [hstore.row? happart, Option.map_map]
    exact hrenamed _ .row
  have hvalue : Option.Rel (Subject.Image ρ) ((s.value? id).map .value) ((s'.value? (ρ id)).map .value) := by
    rw [hstore.value? happart, Option.map_map]
    exact hrenamed _ .value
  cases kind with
  | databaseTable | derivedTable => exact htable
  | tableCreation => exact hcreation
  | databaseField | function => exact hcolumn
  | populatedTable | evaluatedTable => exact hpopulated
  | databaseRow | derivedRow => exact hrow
  | databaseValue | evaluatedValue => exact hvalue

theorem lookupEntity_rel (e : Entity) :
    Option.Rel (Subject.Image ρ) (lookupEntity c s e) (lookupEntity c s' (e.rename ρ)) := by
  have hrel := findSubject?_rel hρ hstore happart e
  unfold lookupEntity
  generalize hfind : findSubject? c s e = found at hrel ⊢
  generalize hfind' : findSubject? c s' (e.rename ρ) = found' at hrel ⊢
  cases hrel with
  | none => exact .none
  | @some subject subject' h =>
    have hid := id_of_findSubject? hfind
    have hid' := id_of_findSubject? hfind'
    have hiff : ∀ {a b : Entity}, a.id = b.id → (a = b ↔ a.kind = b.kind) := by
      intro a b hab
      refine ⟨congrArg Entity.kind, fun hkind => ?_⟩
      cases a
      cases b
      cases hab
      cases hkind
      rfl
    have hsame : decide (subject'.entity = e.rename ρ) = decide (subject.entity = e) := by
      refine decide_eq_decide.2 ?_
      rw [hiff hid, hiff hid', h.kind]
      rfl
    rw [Option.filter_some, Option.filter_some, hsame]
    split
    · exact .some h
    · exact .none

/-- What is there is called the same. -/
theorem labelOf_eq (h : (lookupEntity c s e).isSome) : labelOf c s' (e.rename ρ) = labelOf c s e := by
  have hrel := lookupEntity_rel hρ hstore happart e
  have htable : ∀ id, tableName c (ρ id) = tableName c id := fun id => by
    unfold tableName
    rw [hρ.tableById?]
  unfold labelOf
  generalize lookupEntity c s e = found at h hrel ⊢
  generalize lookupEntity c s' (e.rename ρ) = found' at hrel ⊢
  cases hrel with
  | none => cases h
  | some himage =>
    cases himage with
    | table | creation | column => rfl
    | populated hp =>
      dsimp only
      rw [hp.table, htable]
    | row r =>
      dsimp only [Row.rename]
      rw [(hstore.populated? happart).map_eq fun _ _ hp => ?_]
      rw [hp.table, htable]
    | value v =>
      dsimp only [Value.rename]
      rw [hρ.columnById?]

end

/-! ## What a run answers -/

namespace Run

/-- Whatever a run is asked, the other one answers the same with identities renamed. -/
structure SameAnswers (ρ : Id → Id) (r r' : Run) : Prop where
  results : r.SameResults ρ r'
  isInitialized : ∀ id, r'.state.isInitialized (ρ id) = r.state.isInitialized id
  skipped : r'.state.skipped = r.state.skipped
  failures : r'.state.failures = r.state.failures
  trail : r.state.trail.Image ρ r'.state.trail
  lookup : ∀ e, Option.Rel (Subject.Image ρ) (r.lookup e) (r'.lookup (e.rename ρ))
  tableView : ∀ name, r'.tableView name = (r.tableView name).map (TableView.rename ρ)
  ownedBy : ∀ id, r'.state.log.ownedBy (ρ id) = (r.state.log.ownedBy id).map (Edge.rename ρ)
  transitive : ∀ e depth, r'.state.log.transitive (e.rename ρ) depth =
    (r.state.log.transitive e depth).map (List.map (Reached.rename ρ))
  lineage : ∀ e, Answer.Renamed ρ (LineageReport.rename ρ) e (r.lineage e) (r'.lineage (e.rename ρ))
  lineageWithin : ∀ e depth, Answer.Renamed ρ (LineageReport.rename ρ) e (r.lineageWithin e depth)
    (r'.lineageWithin (e.rename ρ) depth)
  graph : r'.graph = r.graph.rename ρ
  summary : r'.summary = r.summary.rename ρ
  finish : r.finish.Image ρ r'.finish

namespace Moved

variable {ρ : Id → Id} {n n' : Nat} {r r' : Run} (h : Moved ρ n n' (fun _ => true) r r')
include h

theorem log_eq : r'.state.log = r.state.log.rename ρ := by
  have hedges := h.edges
  rw [List.filter_true] at hedges
  exact congrArg EdgeLog.mk hedges

theorem store_apart : r.state.store.Apart ρ :=
  have ⟨_, _, hs, _, hmoved⟩ := h.states
  hmoved.apart h.wellFormed h.moves hs

theorem apart_of_known {e : Entity} (he : e ∈ knownEntities r.setup.catalog r.state.store) :
    ∀ i, ρ i = ρ e.id → i = e.id := by
  obtain ⟨before, before', hs, -, hmoved⟩ := h.states
  rcases List.mem_append.1 he with he | he
  · exact h.moves.apart _ (.inl ⟨e, he, rfl⟩)
  · obtain ⟨x, hx, he⟩ := List.mem_flatMap.1 he
    refine h.store_apart x hx e.id ?_
    rcases List.mem_cons.1 he with rfl | he
    · exact List.mem_cons_self
    · exact Extent.id_mem_ids he

theorem log_apart : r.state.log.Apart ρ := by
  obtain ⟨before, before', hs, -, -⟩ := h.states
  have hknown := hs.identified h.wellFormed
  rintro edge hedge e (rfl | rfl)
  · exact h.apart_of_known (hknown.owners edge hedge)
  · exact h.apart_of_known (hknown.targets edge hedge)

theorem lookup (e : Entity) : Option.Rel (Subject.Image ρ) (r.lookup e) (r'.lookup (e.rename ρ)) := by
  unfold Run.lookup
  rw [h.keeps.catalog]
  exact lookupEntity_rel h.moves h.store h.store_apart e

theorem isSome_lookup_of_known {e : Entity} (he : e ∈ knownEntities r.setup.catalog r.state.store) :
    (r.lookup e).isSome := by
  obtain ⟨before, before', hs, -, -⟩ := h.states
  rw [isSome_lookup_iff h.wellFormed]
  exact (List.mem_append.1 he).imp Catalog.contains_iff.2 (hs.sound h.wellFormed).contains_of_mem

theorem graph : r'.graph = r.graph.rename ρ := by
  obtain ⟨before, before', hs, -, -⟩ := h.states
  have hknown := hs.identified h.wellFormed
  let known (e e' : Entity) : Prop := e ∈ knownEntities r.setup.catalog r.state.store ∧ e' = e.rename ρ
  have hunique : Relator.BiUnique known := by
    refine ⟨?_, fun a b b' hb hb' => hb.2.trans hb'.2.symm⟩
    rintro a b e' ⟨ha, rfl⟩ ⟨hb, heq⟩
    have hid : b.id = a.id := h.apart_of_known ha b.id (congrArg Entity.id heq).symm
    exact hknown.ids a ha b hb hid.symm
  have hends : List.Forall₂ known
      (distinct (r.state.log.edges.flatMap fun edge => [edge.owner, edge.target]))
      (distinct (r'.state.log.edges.flatMap fun edge => [edge.owner, edge.target])) := by
    refine forall₂_distinct hunique ?_
    have hedges : List.Forall₂ (fun edge edge' => edge = edge' ∧ edge ∈ r.state.log.edges) r.state.log.edges
        r.state.log.edges := List.forall₂_same.2 fun _ hedge => ⟨rfl, hedge⟩
    rw [h.log_eq, EdgeLog.rename, List.flatMap_map]
    refine List.rel_flatMap hedges ?_
    rintro edge _ ⟨rfl, hedge⟩
    exact .cons ⟨hknown.owners edge hedge, rfl⟩ (.cons ⟨hknown.targets edge hedge, rfl⟩ .nil)
  have hnodes := hends.map_eq
    (f := fun e => (⟨e.rename ρ, labelOf r.setup.catalog r.state.store e⟩ : GraphNode))
    (g := fun e => ⟨e, labelOf r'.setup.catalog r'.state.store e⟩) (by
      rintro e _ ⟨he, rfl⟩
      rw [h.keeps.catalog, labelOf_eq h.moves h.store h.store_apart (h.isSome_lookup_of_known he)])
  unfold Run.graph LineageGraph.rename
  dsimp only
  rw [List.map_map, ← hnodes, h.log_eq]
  rfl

theorem summary : r'.summary = r.summary.rename ρ := by
  obtain ⟨before, before', hs, hs', hmoved⟩ := h.states
  have hcount : r'.state.log.countByKind = r.state.log.countByKind := by
    have hcount : ∀ kind, r'.state.log.count kind = r.state.log.count kind := fun kind => by
      unfold EdgeLog.count
      rw [h.log_eq, EdgeLog.rename, List.filter_map, List.length_map]
      rfl
    unfold EdgeLog.countByKind
    simp only [hcount]
  have hpopulated := h.store.populated.length_eq
  unfold Run.summary Summary.rename
  dsimp only
  rw [hmoved.trail.id, hmoved.trail.status, ← hpopulated, h.store.rows, h.store.values, List.length_map,
    List.length_map, hcount, hmoved.skipped, hmoved.failures]

theorem finish : r.finish.Image ρ r'.finish := by
  obtain ⟨before, before', hs, hs', hmoved⟩ := h.states
  exact {
    trail := hmoved.trail.finish .completed r.state.now r'.state.now
    populated := h.store.populated
    rows := h.store.rows
    values := h.store.values
    edges := congrArg EdgeLog.edges h.log_eq
    failures := hmoved.failures }

section

variable (hacyclic : ∀ id, ¬Relation.TransGen r.state.log.Links id id)
  (hacyclic' : ∀ id, ¬Relation.TransGen r'.state.log.Links id id)
include hacyclic hacyclic'

theorem transitive (e : Entity) (depth : Option Nat) : r'.state.log.transitive (e.rename ρ) depth =
    (r.state.log.transitive e depth).map (List.map (Reached.rename ρ)) := by
  rw [EdgeLog.transitive_of_acyclic fun id _ => hacyclic id,
    EdgeLog.transitive_of_acyclic fun id _ => hacyclic' id, h.log_eq, EdgeLog.walkFrom_rename h.log_apart]
  rfl

theorem lineageWithin (e : Entity) (depth : Option Nat) :
    Answer.Renamed ρ (LineageReport.rename ρ) e (r.lineageWithin e depth)
      (r'.lineageWithin (e.rename ρ) depth) := by
  have hlookup := h.lookup e
  cases hfind : r.lookup e with
  | none =>
    exact .inr ⟨lineageWithin_of_none hfind, lineageWithin_of_none (hfind ▸ hlookup).eq_none⟩
  | some subject =>
    have hsome : (r.lookup e).isSome := by rw [hfind]; rfl
    have hsome' : (r'.lookup (e.rename ρ)).isSome := hlookup.isSome_eq.symm.trans hsome
    refine .inl ?_
    rw [lineageWithin_of_some hacyclic hsome, lineageWithin_of_some hacyclic' hsome']
    refine congrArg Except.ok ?_
    have hleaves : ∀ reached : List Reached,
        ((reached.map (Reached.rename ρ)).map Reached.entity).filter
            (fun e => ((r.state.log.rename ρ).ownedBy e.id).isEmpty) =
          ((reached.map Reached.entity).filter fun e => (r.state.log.ownedBy e.id).isEmpty).map
            (Entity.rename ρ) := by
      intro reached
      have hentities : (reached.map (Reached.rename ρ)).map Reached.entity =
          (reached.map Reached.entity).map (Entity.rename ρ) := by
        rw [List.map_map, List.map_map]
        rfl
      rw [hentities, List.filter_map]
      refine congrArg _ (List.filter_congr fun e _ => ?_)
      exact EdgeLog.isEmpty_ownedBy_rename h.log_apart e.id
    unfold reportOf LineageReport.rename
    dsimp only
    rw [h.log_eq, EdgeLog.walkFrom_rename h.log_apart, ← hleaves]
    exact congrArg (LineageReport.mk _ · _ _ _) (EdgeLog.ownedBy_rename h.log_apart e.id)

theorem sameAnswers (hdepth : r'.setup.settings.maxDepth = r.setup.settings.maxDepth) : SameAnswers ρ r r' := by
  obtain ⟨before, before', hs, hs', hmoved⟩ := h.states
  exact {
    results := h.sameResults
    isInitialized := hmoved.isInitialized h.wellFormed h.moves hs hs'
    skipped := hmoved.skipped
    failures := hmoved.failures
    trail := hmoved.trail
    lookup := h.lookup
    tableView := h.tableView
    ownedBy := fun id => h.log_eq ▸ EdgeLog.ownedBy_rename h.log_apart id
    transitive := h.transitive hacyclic hacyclic'
    lineage := fun e => by
      unfold Run.lineage
      rw [hdepth]
      exact h.lineageWithin hacyclic hacyclic' e _
    lineageWithin := h.lineageWithin hacyclic hacyclic'
    graph := h.graph
    summary := h.summary
    finish := h.finish }

end

end Moved

end Run

end Provenance
