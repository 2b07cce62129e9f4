import LakehouseEngine.Catalog.Lakekeeper
import LakehouseEngine.Concurrency.Interleaving

/-!
# The tables that the requests of one statement load

The requests of a statement share the tables that a check admitted and the tables that were
loaded.  A request checks its identifiers, then resolves its references, all at once; each
reference asks for admission, then waits for the load of its table or starts it.
-/

namespace LakehouseEngine

inductive PermissionCheck where
  | off
  | enforced (gate : PermissionGate)

/-- The catalog kinds as a pushdown uses them.  Only an Iceberg REST catalog runs a check. -/
inductive ScanCatalog where
  | icebergRest (server : Lakekeeper)
  | ungated (checkIdentifier : List Char → Except String Unit)

inductive RequestError where
  | ident (cause : IdentError)
  | identifier (cause : String)
  | check (cause : CheckError)
  | notCovered (table : List Char)
  | schema (cause : String)
  | load (cause : String)
  | scan (cause : String)
  deriving DecidableEq, Repr

namespace ScanCatalog

def checkIdentifier : ScanCatalog → List Char → Except RequestError Unit
  | icebergRest _, table => ((parseTableIdent table).mapError .ident).map fun _ => ()
  | ungated rule, table => (rule table).mapError .identifier

/-- The tables that a check admits; a kind that runs none admits none. -/
def authorize (catalog : ScanCatalog) (gate : PermissionGate) (tables : List (List Char))
    (outcome : Except String PostAnswer) : Except RequestError (List (List Char)) :=
  match catalog with
  | icebergRest server =>
      ((gate.authorize server tables outcome).mapError .check).map fun _ => tables
  | ungated _ => .ok []

/-- The request that a check of some tables posts, if it comes to that. -/
def posted (catalog : ScanCatalog) (principal : List Char) (tables : List (List Char)) :
    Option BatchCheckRequest :=
  match catalog with
  | icebergRest server => (server.request principal tables).toOption.join.map (·.2)
  | ungated _ => none

end ScanCatalog

inductive Event where
  | batchCheck (request : BatchCheckRequest) (outcome : Except String PostAnswer)
  | load (table : List Char)

inductive LoadCell where
  | empty
  | loading
  | ready
  deriving DecidableEq, Repr

/-- What the requests of a statement share, and what was sent for them, in order. -/
structure StatementCatalog where
  admitted : List (List Char)
  loaded : List Char → LoadCell
  log : List Event

namespace StatementCatalog

def opened : StatementCatalog where
  admitted := []
  loaded := fun _ => .empty
  log := []

def unchecked (statement : StatementCatalog) (tables : List (List Char)) : List (List Char) :=
  tables.filter fun table => !statement.admitted.contains table

def admitTables (statement : StatementCatalog) (tables : List (List Char)) : StatementCatalog :=
  { statement with admitted := statement.admitted ++ tables }

def recorded (statement : StatementCatalog) (events : List Event) : StatementCatalog :=
  { statement with log := statement.log ++ events }

def setCell (statement : StatementCatalog) (table : List Char) (cell : LoadCell) :
    StatementCatalog :=
  { statement with loaded := Function.update statement.loaded table cell }

end StatementCatalog

/-- A table that a request reads, and whether its column notes give a schema. -/
structure Reference where
  table : List Char
  declared : Except String Unit

inductive LegPhase where
  | unresolved
  | awaiting
  | loading
  | pruning
  | resolved
  deriving DecidableEq, Repr

structure Leg extends Reference where
  phase : LegPhase

namespace Leg

def start (reference : Reference) : Leg := { reference with phase := .unresolved }

def requireAdmitted (permission : PermissionCheck) (statement : StatementCatalog)
    (table : List Char) : Except RequestError Unit :=
  match permission with
  | .off => .ok ()
  | .enforced _ =>
      if statement.admitted.contains table then .ok () else .error (.notCovered table)

/-- The next step of a reference; `reply` is how what it waits for ends. -/
def step (permission : PermissionCheck) (statement : StatementCatalog) (leg : Leg)
    (reply : Except String Unit) : Except RequestError (StatementCatalog × Leg) :=
  match leg.phase with
  | .unresolved => do
      requireAdmitted permission statement leg.table
      leg.declared.mapError .schema
      return (statement, { leg with phase := .awaiting })
  | .awaiting =>
      match statement.loaded leg.table with
      | .empty =>
          .ok ((statement.setCell leg.table .loading).recorded [.load leg.table],
            { leg with phase := .loading })
      | .loading => .ok (statement, leg)
      | .ready => .ok (statement, { leg with phase := .pruning })
  | .loading => do
      reply.mapError .load
      return (statement.setCell leg.table .ready, { leg with phase := .pruning })
  | .pruning => do
      reply.mapError .scan
      return (statement, { leg with phase := .resolved })
  | .resolved => .ok (statement, leg)

/-- A dropped reference gives up the load it started. -/
def dropped (statement : StatementCatalog) (leg : Leg) : StatementCatalog :=
  if leg.phase = .loading then statement.setCell leg.table .empty else statement

end Leg

inductive Reply where
  | post (outcome : Except String PostAnswer)
  | leg (position : ℕ) (outcome : Except String Unit)

inductive TableRequest where
  | asked (permission : PermissionCheck) (identifiers : List (List Char))
      (references : List Reference)
  | checking (gate : PermissionGate) (unchecked : List (List Char)) (references : List Reference)
  | resolving (permission : PermissionCheck) (legs : List Leg)
  | refused (error : RequestError)

namespace TableRequest

def legs : TableRequest → List Leg
  | resolving _ legs => legs
  | _ => []

def ask (catalog : ScanCatalog) (statement : StatementCatalog) (permission : PermissionCheck)
    (identifiers : List (List Char)) (references : List Reference) : TableRequest :=
  match identifiers.forM catalog.checkIdentifier with
  | .error error => .refused error
  | .ok () =>
      match permission with
      | .off => .resolving .off (references.map .start)
      | .enforced gate =>
          let unchecked := statement.unchecked identifiers
          if unchecked = [] then .resolving (.enforced gate) (references.map .start)
          else .checking gate unchecked references

def answer (catalog : ScanCatalog) (statement : StatementCatalog) (gate : PermissionGate)
    (unchecked : List (List Char)) (references : List Reference)
    (outcome : Except String PostAnswer) : StatementCatalog × TableRequest :=
  let events := (catalog.posted gate.principal unchecked).toList.map (.batchCheck · outcome)
  match catalog.authorize gate unchecked outcome with
  | .error error => (statement.recorded events, .refused error)
  | .ok tables =>
      ((statement.recorded events).admitTables tables,
        .resolving (.enforced gate) (references.map .start))

/-- One reference moves on; the first that fails ends the request. -/
def resolve (statement : StatementCatalog) (permission : PermissionCheck) (legs : List Leg)
    (position : ℕ) (reply : Except String Unit) : StatementCatalog × TableRequest :=
  match legs[position]? with
  | none => (statement, .resolving permission legs)
  | some leg =>
      match leg.step permission statement reply with
      | .ok (statement, leg) => (statement, .resolving permission (legs.set position leg))
      | .error error => (legs.foldl Leg.dropped statement, .refused error)

end TableRequest

/-- A request takes its turn; a reply to something else leaves it waiting. -/
def scanMachine (catalog : ScanCatalog) : Machine StatementCatalog TableRequest Reply where
  step statement request reply :=
    match request, reply with
    | .asked permission identifiers references, _ =>
        (statement, .ask catalog statement permission identifiers references)
    | .checking gate unchecked references, .post outcome =>
        TableRequest.answer catalog statement gate unchecked references outcome
    | .resolving permission legs, .leg position outcome =>
        TableRequest.resolve statement permission legs position outcome
    | request, _ => (statement, request)

/-- The requests of a statement under an enforced check, all for one principal. -/
def gatedRequests (principal : List Char)
    (requests : List (List Char × List (List Char) × List Reference)) :
    Configuration StatementCatalog TableRequest where
  shared := .opened
  tasks := requests.map fun (user, identifiers, references) =>
    .asked (.enforced { user, principal }) identifiers references

/-! ## What admits a table -/

/-- A granted check for the principal that names the table. -/
def Vouched (catalog : ScanCatalog) (principal table : List Char) (log : List Event) : Prop :=
  ∃ server request status body results ns name,
    catalog = .icebergRest server ∧
    .batchCheck request (.ok (.accepted status body)) ∈ log ∧
    server.results body = some results ∧ Granted request results ∧
    parseTableIdent table = .ok (ns, name) ∧
    ∃ check ∈ request.checks, check.user = principal ∧ check.ns = ns.levels ∧ check.table = name

variable {catalog : ScanCatalog} {principal : List Char} {statement : StatementCatalog}

theorem Vouched.mono {table : List Char} {log later : List Event}
    (vouched : Vouched catalog principal table log) (grown : log ⊆ later) :
    Vouched catalog principal table later := by
  obtain ⟨server, request, status, body, results, ns, name, kind, member, rest⟩ := vouched
  exact ⟨server, request, status, body, results, ns, name, kind, grown member, rest⟩

/-- Every admitted table is vouched for, and every load by what was sent before it. -/
structure Covered (catalog : ScanCatalog) (principal : List Char) (statement : StatementCatalog) :
    Prop where
  admitted : ∀ table ∈ statement.admitted, Vouched catalog principal table statement.log
  loads : ∀ before table after, statement.log = before ++ .load table :: after →
    Vouched catalog principal table before

/-- What a request has checked so far. -/
def Admits (principal : List Char) (statement : StatementCatalog) : TableRequest → Prop
  | .asked permission _ _ => ∃ user, permission = .enforced { user, principal }
  | .checking gate unchecked _ => gate.principal = principal ∧ unchecked ≠ []
  | .resolving permission legs => (∃ user, permission = .enforced { user, principal }) ∧
      ∀ leg ∈ legs, leg.phase ≠ .unresolved → leg.table ∈ statement.admitted
  | .refused _ => True

theorem Admits.mono {later : StatementCatalog} (grown : statement.admitted ⊆ later.admitted)
    {request : TableRequest} (admits : Admits principal statement request) :
    Admits principal later request := by
  cases request with
  | resolving permission legs =>
      refine ⟨admits.1, ?_⟩
      intro leg member past
      exact grown (admits.2 leg member past)
  | _ => exact admits

theorem admits_start (user : List Char) (references : List Reference) :
    Admits principal statement
      (.resolving (.enforced { user, principal }) (references.map .start)) := by
  refine ⟨⟨user, rfl⟩, ?_⟩
  intro leg member past
  obtain ⟨reference, -, rfl⟩ := List.mem_map.mp member
  exact absurd rfl past

/-- What was sent last keeps what is covered, if each of its loads is vouched for. -/
theorem Covered.recorded (covered : Covered catalog principal statement) {events : List Event}
    (vouched : ∀ before table after, events = before ++ .load table :: after →
      Vouched catalog principal table (statement.log ++ before)) :
    Covered catalog principal (statement.recorded events) := by
  refine ⟨fun table member =>
    (covered.admitted table member).mono (List.subset_append_left _ events), ?_⟩
  intro before table after split
  obtain ⟨rest, rfl, last⟩ | ⟨rest, earlier, last⟩ := List.append_eq_append_iff.mp split
  · exact vouched rest table after last
  · cases rest with
    | nil =>
        have here := vouched [] table after last.symm
        rw [List.append_nil] at here earlier
        rw [← earlier]
        exact here
    | cons event rest =>
        obtain ⟨rfl, -⟩ := List.cons.inj last
        exact covered.loads before table rest earlier

/-! ## One step -/

section Step

variable {gate : PermissionGate} {tables : List (List Char)} {outcome : Except String PostAnswer}

/-- Tables are admitted only by a posted request whose answer grants it. -/
theorem ScanCatalog.granted_of_authorize (nonempty : tables ≠ [])
    {admitted : List (List Char)} (passed : catalog.authorize gate tables outcome = .ok admitted) :
    admitted = [] ∨ admitted = tables ∧ ∃ server url request status body results,
      catalog = .icebergRest server ∧
      server.request gate.principal tables = .ok (some (url, request)) ∧
      outcome = .ok (.accepted status body) ∧ server.results body = some results ∧
      Granted request results := by
  cases catalog with
  | ungated rule =>
      cases passed
      exact .inl rfl
  | icebergRest server =>
      obtain ⟨⟨⟩, authorized, rfl⟩ := relabelled_eq_ok.mp passed
      obtain ⟨url, request, status, body, results, granted⟩ :=
        PermissionGate.granted_of_authorize nonempty authorized
      exact .inr ⟨rfl, server, url, request, status, body, results, rfl, granted⟩

/-- The tables that an answer admits are vouched for by that answer. -/
theorem vouched_of_authorize (nonempty : tables ≠ []) {admitted : List (List Char)}
    (passed : catalog.authorize gate tables outcome = .ok admitted) :
    ∀ table ∈ admitted, Vouched catalog gate.principal table
      ((catalog.posted gate.principal tables).toList.map (.batchCheck · outcome)) := by
  intro table member
  obtain rfl | ⟨rfl, server, url, request, status, body, results, rfl, prepared, rfl,
    read, granted⟩ :=
    ScanCatalog.granted_of_authorize nonempty passed
  · cases member
  obtain ⟨empty, -⟩ | ⟨_, _, same, built⟩ := Lakekeeper.request_cases prepared
  · exact absurd empty nonempty
  cases same
  obtain ⟨ns, name, parsed, named⟩ :=
    buildBatchCheck_names built (mem_distinctInFirstSeenOrder.mpr member)
  refine ⟨server, request, status, body, results, ns, name, rfl, ?_, read, granted, parsed, named⟩
  simp [ScanCatalog.posted, prepared, Except.toOption]

/-- An answer keeps what is covered, and admits only what it vouches for. -/
theorem covered_answer (covered : Covered catalog gate.principal statement)
    (nonempty : tables ≠ []) (references : List Reference) :
    Covered catalog gate.principal
      (TableRequest.answer catalog statement gate tables references outcome).1 := by
  have posted : Covered catalog gate.principal (statement.recorded
      ((catalog.posted gate.principal tables).toList.map (.batchCheck · outcome))) := by
    apply covered.recorded
    intro before table after sent
    have member : Event.load table ∈
        (catalog.posted gate.principal tables).toList.map (.batchCheck · outcome) := by
      rw [sent]
      simp
    simp at member
  unfold TableRequest.answer
  simp only
  split
  · exact posted
  case h_2 admitted passed =>
    refine ⟨?_, posted.loads⟩
    intro table member
    rcases List.mem_append.mp member with member | member
    · exact posted.admitted table member
    · apply (vouched_of_authorize nonempty passed table member).mono
      exact List.subset_append_right statement.log _

theorem admits_answer (references : List Reference) :
    Admits gate.principal (TableRequest.answer catalog statement gate tables references outcome).1
      (TableRequest.answer catalog statement gate tables references outcome).2 := by
  unfold TableRequest.answer
  simp only
  split
  · trivial
  · exact admits_start gate.user references

theorem admitted_subset_answer (references : List Reference) : statement.admitted ⊆
    (TableRequest.answer catalog statement gate tables references outcome).1.admitted := by
  unfold TableRequest.answer
  simp only
  split
  · exact List.Subset.refl _
  · exact List.subset_append_left _ _

theorem admits_ask {user : List Char} (identifiers : List (List Char))
    (references : List Reference) : Admits principal statement
      (.ask catalog statement (.enforced { user, principal }) identifiers references) := by
  unfold TableRequest.ask
  split
  · trivial
  · simp only
    split_ifs with empty
    · exact admits_start user references
    · exact ⟨rfl, empty⟩

/-- What a reference does: it passes the gate, loads its table, or changes nothing that the
gate is about. -/
theorem Leg.step_cases {user : List Char} {leg next : Leg} {later : StatementCatalog}
    {reply : Except String Unit}
    (stepped : leg.step (.enforced { user, principal }) statement reply = .ok (later, next)) :
    later.admitted = statement.admitted ∧ next.table = leg.table ∧
      (leg.phase = .unresolved → leg.table ∈ statement.admitted) ∧
      (later.log = statement.log ∨
        leg.phase ≠ .unresolved ∧ later.log = statement.log ++ [.load leg.table]) := by
  unfold Leg.step at stepped
  split at stepped
  case h_1 first =>
    obtain ⟨⟨⟩, admitted, stepped⟩ := exists_of_bind_ok stepped
    obtain ⟨⟨⟩, -, stepped⟩ := exists_of_bind_ok stepped
    cases stepped
    have covered : leg.table ∈ statement.admitted := by
      simp only [Leg.requireAdmitted] at admitted
      split_ifs at admitted with member
      simpa using member
    exact ⟨rfl, rfl, fun _ => covered, .inl rfl⟩
  case h_2 waits =>
    have past : leg.phase ≠ .unresolved := by simp [waits]
    split at stepped
    · cases stepped
      exact ⟨rfl, rfl, fun first => absurd first past, .inr ⟨past, rfl⟩⟩
    · cases stepped
      exact ⟨rfl, rfl, fun first => absurd first past, .inl rfl⟩
    · cases stepped
      exact ⟨rfl, rfl, fun first => absurd first past, .inl rfl⟩
  case h_3 loads =>
    obtain ⟨⟨⟩, -, stepped⟩ := exists_of_bind_ok stepped
    cases stepped
    exact ⟨rfl, rfl, by simp [loads], .inl rfl⟩
  case h_4 prunes =>
    obtain ⟨⟨⟩, -, stepped⟩ := exists_of_bind_ok stepped
    cases stepped
    exact ⟨rfl, rfl, by simp [prunes], .inl rfl⟩
  case h_5 done =>
    cases stepped
    exact ⟨rfl, rfl, by simp [done], .inl rfl⟩

end Step

theorem Leg.dropped_eq (legs : List Leg) : (legs.foldl Leg.dropped statement).admitted =
    statement.admitted ∧ (legs.foldl Leg.dropped statement).log = statement.log := by
  induction legs generalizing statement with
  | nil => exact ⟨rfl, rfl⟩
  | cons leg legs ih =>
      have one : (leg.dropped statement).admitted = statement.admitted ∧
          (leg.dropped statement).log = statement.log := by
        unfold Leg.dropped
        split_ifs
        · exact ⟨rfl, rfl⟩
        · exact ⟨rfl, rfl⟩
      rw [List.foldl_cons, ih.1, ih.2]
      exact one

section Resolve

variable {user : List Char} {legs : List Leg}

theorem admitted_subset_resolve (position : ℕ) (reply : Except String Unit) :
    statement.admitted ⊆ (TableRequest.resolve statement (.enforced { user, principal }) legs
      position reply).1.admitted := by
  unfold TableRequest.resolve
  split
  · exact List.Subset.refl _
  · split
    case h_1 stepped =>
      rw [(Leg.step_cases stepped).1]
      exact List.Subset.refl _
    · rw [(Leg.dropped_eq legs).1]
      exact List.Subset.refl _

theorem covered_resolve (covered : Covered catalog principal statement)
    (past : ∀ leg ∈ legs, leg.phase ≠ .unresolved → leg.table ∈ statement.admitted)
    (position : ℕ) (reply : Except String Unit) : Covered catalog principal
      (TableRequest.resolve statement (.enforced { user, principal }) legs position reply).1 := by
  -- only the log and the admitted tables of a statement matter
  have transfer {later : StatementCatalog} {events : List Event}
      (admitted : later.admitted = statement.admitted)
        (logged : later.log = statement.log ++ events)
      (kept : Covered catalog principal (statement.recorded events)) :
      Covered catalog principal later := by
    refine ⟨?_, ?_⟩
    · rw [admitted, logged]
      exact kept.admitted
    · rw [logged]
      exact kept.loads
  have silent : Covered catalog principal (statement.recorded []) :=
    covered.recorded fun before table after sent => by simp at sent
  unfold TableRequest.resolve
  split
  · exact covered
  case h_2 leg here =>
    split
    case h_1 later next stepped =>
      obtain ⟨admitted, -, -, same | ⟨resolved, logged⟩⟩ := Leg.step_cases stepped
      · exact transfer admitted (by rw [same, List.append_nil]) silent
      · apply transfer admitted logged
        apply covered.recorded
        intro before table after sent
        have known := covered.admitted leg.table (past leg (List.mem_of_getElem? here) resolved)
        cases before with
        | nil =>
            cases sent
            rwa [List.append_nil]
        | cons event before => simp at sent
    · exact transfer (Leg.dropped_eq legs).1 (by rw [(Leg.dropped_eq legs).2, List.append_nil])
        silent

theorem admits_resolve
    (past : ∀ leg ∈ legs, leg.phase ≠ .unresolved → leg.table ∈ statement.admitted)
    (position : ℕ) (reply : Except String Unit) : Admits principal statement
      (TableRequest.resolve statement (.enforced { user, principal }) legs position reply).2 := by
  unfold TableRequest.resolve
  split
  · exact ⟨⟨user, rfl⟩, past⟩
  case h_2 leg here =>
    split
    case h_1 later next stepped =>
      obtain ⟨-, same, gated, -⟩ := Leg.step_cases stepped
      refine ⟨⟨user, rfl⟩, ?_⟩
      intro other member resolved
      rcases List.mem_or_eq_of_mem_set member with member | rfl
      · exact past other member resolved
      · rw [same]
        by_cases first : leg.phase = .unresolved
        · exact gated first
        · exact past leg (List.mem_of_getElem? here) first
    · trivial

end Resolve

/-! ## Every run -/

/-- What one turn of one request does. -/
theorem scanMachine_step (covered : Covered catalog principal statement)
    {request : TableRequest} (admits : Admits principal statement request) (reply : Reply) :
    let (later, next) := (scanMachine catalog).step statement request reply
    Covered catalog principal later ∧ Admits principal later next ∧
      statement.admitted ⊆ later.admitted := by
  cases request with
  | asked permission identifiers references =>
      obtain ⟨user, rfl⟩ := admits
      exact ⟨covered, admits_ask identifiers references, List.Subset.refl _⟩
  | checking gate unchecked references =>
      obtain ⟨rfl, nonempty⟩ := admits
      cases reply with
      | leg position outcome => exact ⟨covered, ⟨rfl, nonempty⟩, List.Subset.refl _⟩
      | post outcome =>
          exact ⟨covered_answer covered nonempty references, admits_answer references,
            admitted_subset_answer references⟩
  | resolving permission legs =>
      obtain ⟨⟨user, rfl⟩, past⟩ := admits
      cases reply with
      | post outcome => exact ⟨covered, ⟨⟨user, rfl⟩, past⟩, List.Subset.refl _⟩
      | leg position outcome =>
          have grown := @admitted_subset_resolve principal statement user legs position outcome
          exact ⟨covered_resolve covered past position outcome,
            (admits_resolve past position outcome).mono grown, grown⟩
  | refused error => exact ⟨covered, trivial, List.Subset.refl _⟩

theorem scanMachine_keeps (catalog : ScanCatalog) (principal : List Char) :
    (scanMachine catalog).Keeps (Covered catalog principal) (Admits principal) where
  safe _ _ reply covered admits := (scanMachine_step covered admits reply).1
  own _ _ reply covered admits := (scanMachine_step covered admits reply).2.1
  other _ _ reply _ covered admits others := others.mono (scanMachine_step covered admits reply).2.2

theorem covered_opened (catalog : ScanCatalog) (principal : List Char) :
    Covered catalog principal .opened where
  admitted table member := by cases member
  loads before table after sent := by simp [StatementCatalog.opened] at sent

theorem admits_gatedRequests (requests : List (List Char × List (List Char) × List Reference)) :
    ∀ request ∈ (gatedRequests principal requests).tasks, Admits principal .opened request := by
  intro request member
  obtain ⟨⟨user, identifiers, references⟩, -, rfl⟩ := List.mem_map.mp member
  exact ⟨user, rfl⟩

theorem refused_of_ungranted {server : Lakekeeper} {gate : PermissionGate}
    {tables : List (List Char)} {outcome : Except String PostAnswer} (statement : StatementCatalog)
    (nonempty : tables ≠ []) (references : List Reference)
    (ungranted : ∀ url request status body results,
      server.request gate.principal tables = .ok (some (url, request)) →
      outcome = .ok (.accepted status body) → server.results body = some results →
      ¬Granted request results) :
    ∃ error events, TableRequest.answer (.icebergRest server) statement gate tables references
      outcome = (statement.recorded events, .refused error) := by
  cases passed : (ScanCatalog.icebergRest server).authorize gate tables outcome with
  | error error =>
      unfold TableRequest.answer
      rw [passed]
      exact ⟨error, _, rfl⟩
  | ok admitted =>
      obtain ⟨⟨⟩, authorized, -⟩ := relabelled_eq_ok.mp passed
      obtain ⟨url, request, status, body, results, prepared, accepted, read, granted⟩ :=
        PermissionGate.granted_of_authorize nonempty authorized
      exact absurd granted (ungranted url request status body results prepared accepted read)

/-- Every load, and every table that a reference has or waits for, is vouched for by a check
that was answered before.  An answer that does not grant its request refuses the request and
admits nothing. -/
theorem loads_are_granted (catalog : ScanCatalog) (principal : List Char)
    (requests : List (List Char × List (List Char) × List Reference))
    (choices : List (ℕ × Reply)) :
    let final := (scanMachine catalog).run (gatedRequests principal requests) choices
    (∀ before table after, final.shared.log = before ++ .load table :: after →
      Vouched catalog principal table before) ∧
    (∀ request ∈ final.tasks, ∀ leg ∈ request.legs, leg.phase ≠ .unresolved →
      Vouched catalog principal leg.table final.shared.log) ∧
    ∀ server, catalog = .icebergRest server → ∀ position gate unchecked references outcome,
      final.tasks[position]? = some (.checking gate unchecked references) →
      (∀ url request status body results,
        server.request principal unchecked = .ok (some (url, request)) →
        outcome = .ok (.accepted status body) → server.results body = some results →
        ¬Granted request results) →
      let next := (scanMachine catalog).turn final (position, .post outcome)
      (∃ error, next.tasks[position]? = some (.refused error)) ∧
        next.shared.admitted = final.shared.admitted := by
  intro final
  obtain ⟨covered, admits⟩ := (scanMachine_keeps catalog principal).run
    (covered_opened catalog principal) (admits_gatedRequests requests) choices
  refine ⟨covered.loads, ?_, ?_⟩
  · intro request member leg own past
    have holds := admits request member
    cases request with
    | resolving permission legs => exact covered.admitted leg.table (holds.2 leg own past)
    | _ => cases own
  · rintro server rfl position gate unchecked references outcome here ungranted
    obtain ⟨rfl, nonempty⟩ := admits _ (List.mem_of_getElem? here)
    have inRange : position < final.tasks.length := (List.getElem?_eq_some_iff.mp here).1
    obtain ⟨error, events, answered⟩ :=
      refused_of_ungranted final.shared nonempty references ungranted
    have stepped : (scanMachine (.icebergRest server)).step final.shared
        (.checking gate unchecked references) (.post outcome) =
          (final.shared.recorded events, .refused error) := answered
    rw [Machine.turn_of_task here, stepped]
    exact ⟨⟨error, List.getElem?_set_self inRange⟩, rfl⟩

/-- A run that checks the table `a.t` and loads it. -/
example :
    let server : Lakekeeper :=
      { rules := .literal, session := WebSession.plain.toCatalogSession
        results := fun _ => some [⟨"read-data", true⟩] }
    let table := "a.t".toList
    let final := (scanMachine (.icebergRest server)).run
      (gatedRequests ['p'] [(['u'], [table], [⟨table, .ok ()⟩])])
      [(0, .leg 0 (.ok ())), (0, .post (.ok (.accepted 200 []))), (0, .leg 0 (.ok ())),
        (0, .leg 0 (.ok ()))]
    final.shared.admitted = [table] ∧ final.shared.loaded table = .loading := by
  decide +kernel

end LakehouseEngine
