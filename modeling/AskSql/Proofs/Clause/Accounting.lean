import AskSql.Proofs.Clause.Binding
import AskSql.Proofs.Compiler.Fresh
import AskSql.Proofs.Compiler.SourceTable
import AskSql.Proofs.Distinct
import AskSql.Proofs.Sql.Lookups

/-! What becomes of each clause.  Whether a clause can be bound depends on what its field denotes
and on the entity that the question reads, and not on the clauses beside it.  Those that can be
bound are added in their order; each of the others leaves a warning, or the first of them ends the
request. -/

namespace AskSql

open Vocabulary

variable {denoted : String → Except Fault Term} {node : QueryNode} {query : Select}
  {clause : Clause} {clauses : List Clause} {target : AttributeRef} {fault : Fault}

namespace Clause

/-! ### What a bound clause is -/

/-- The filter that a bound clause is. -/
def filterOf? : Clause × AttributeRef → Option Filter
  | (.filter _ operator value negate, target) => some ⟨target, operator, value, negate⟩
  | _ => none

/-- The sort that a bound clause is. -/
def sortOf? : Clause × AttributeRef → Option SortKey
  | (.sort _ direction, target) => some ⟨target, direction⟩
  | _ => none

/-- The attribute that a bound clause groups by. -/
def groupOf? : Clause × AttributeRef → Option AttributeRef
  | (.groupBy _, target) => some target
  | _ => none

/-- A bound clause adds what it is. -/
theorem apply_eq (query : Select) (clause : Clause) (target : AttributeRef) :
    apply query clause target =
      { query with
        filters := query.filters ++ (filterOf? (clause, target)).toList
        sorts := query.sorts ++ (sortOf? (clause, target)).toList
        groupBy := (groupOf? (clause, target)).toList.foldl pushNew query.groupBy } := by
  cases clause with
  | filter | sort => simp [apply, filterOf?, sortOf?, groupOf?]
  | groupBy =>
    simp only [apply, filterOf?, sortOf?, groupOf?, Option.toList_none, Option.toList_some,
      List.append_nil, List.foldl_cons, List.foldl_nil, pushNew]
    split <;> rfl

/-! ### Where a clause is bound -/

/-- The attribute that a clause is bound to beside a question, or why there is none, where `denoted`
says what a phrase denotes. -/
def targetFor (denoted : String → Except Fault Term) (node : QueryNode) (clause : Clause) :
    Except Fault AttributeRef :=
  match node with
  | .shortcut shortcut => .error (.shortcutWithClause shortcut.name)
  | .select query =>
    match query.source? with
    | none => .error .noSource
    | some source => (denoted clause.field).bind (attributeFor clause.field source.name)

/-- A question with a bound clause.  A stored statement stays as it is. -/
def applyTo (node : QueryNode) (clause : Clause) (target : AttributeRef) : QueryNode :=
  match node with
  | .shortcut shortcut => .shortcut shortcut
  | .select query => .select (apply query clause target)

theorem bindOneBy_eq (denoted : String → Except Fault Term) (node : QueryNode) (clause : Clause) :
    bindOneBy denoted node clause = (targetFor denoted node clause).map (applyTo node clause) := by
  cases node with
  | shortcut => rfl
  | select query =>
    rw [bindOneBy, targetFor]
    cases query.source? <;> rfl

@[simp] theorem entities_apply (query : Select) (clause : Clause) (target : AttributeRef) :
    (apply query clause target).entities = query.entities := by
  rw [apply_eq]

/-- A bound clause has no part in what the others are bound to. -/
theorem targetFor_applyTo (denoted : String → Except Fault Term) (node : QueryNode)
    (clause : Clause) (target : AttributeRef) :
    targetFor denoted (applyTo node clause target) = targetFor denoted node := by
  cases node with
  | shortcut => rfl
  | select query =>
    funext other
    simp only [targetFor, applyTo, Select.source?, entities_apply]

/-- A clause that is bound stands beside a question with an entity, and its field denotes an
attribute of that entity. -/
theorem targetFor_ok (h : targetFor denoted node clause = .ok target) :
    ∃ query source term, node = .select query ∧ query.source? = some source ∧
      denoted clause.field = .ok term ∧ attributeFor clause.field source.name term =
        .ok target := by
  cases node with
  | shortcut => contradiction
  | select query =>
    rw [targetFor] at h
    cases hsource : query.source? with
    | none =>
      rw [hsource] at h
      contradiction
    | some source =>
      rw [hsource] at h
      obtain ⟨term, hterm, htarget⟩ := exists_of_bind h
      exact ⟨query, source, term, rfl, hsource, hterm, htarget⟩

theorem isDroppable_attributeFor {field source : String} {term : Term}
    (h : attributeFor field source term = .error fault) : isDroppable fault = true := by
  rw [attributeFor] at h
  split at h
  · split at h
    · contradiction
    · rw [← Except.error.inj h]
      rfl
  · rw [← Except.error.inj h]
    rfl

/-- Whatever keeps a clause from being bound, the clause may be left out, if a phrase that denotes
nothing is no more than unknown. -/
theorem isDroppable_targetFor
    (hunknown : ∀ phrase fault, denoted phrase = .error fault → fault = .unknownTerm phrase)
    (h : targetFor denoted node clause = .error fault) : isDroppable fault = true := by
  cases node with
  | shortcut shortcut =>
    rw [← Except.error.inj h]
    rfl
  | select query =>
    rw [targetFor] at h
    cases hsource : query.source? with
    | none =>
      rw [hsource] at h
      rw [← Except.error.inj h]
      rfl
    | some source =>
      rw [hsource] at h
      dsimp only at h
      cases hterm : denoted clause.field with
      | error other =>
        rw [hterm] at h
        rw [← Except.error.inj h, hunknown _ _ hterm]
        rfl
      | ok term =>
        rw [hterm] at h
        exact isDroppable_attributeFor h

/-! ### All clauses -/

section
variable {outcome : Clause → Except Fault AttributeRef}

/-- The clauses that are bound, with their attributes. -/
def bound (outcome : Clause → Except Fault AttributeRef) (clauses : List Clause) :
    List (Clause × AttributeRef) :=
  clauses.filterMap fun clause => (outcome clause).toOption.map (clause, ·)

/-- The clauses that cannot be bound, with what keeps them from it. -/
def unbound (outcome : Clause → Except Fault AttributeRef) (clauses : List Clause) :
    List (Clause × Fault) :=
  clauses.filterMap fun clause => (fault? (outcome clause)).map (clause, ·)

theorem bound_cons_ok (h : outcome clause = .ok target) :
    bound outcome (clause :: clauses) = (clause, target) :: bound outcome clauses ∧
      unbound outcome (clause :: clauses) = unbound outcome clauses := by
  simp [bound, unbound, h, fault?, Except.toOption]

theorem bound_cons_error (h : outcome clause = .error fault) :
    bound outcome (clause :: clauses) = bound outcome clauses ∧
      unbound outcome (clause :: clauses) = (clause, fault) :: unbound outcome clauses := by
  simp [bound, unbound, h, fault?, Except.toOption]

theorem mem_bound : (clause, target) ∈ bound outcome clauses ↔
    clause ∈ clauses ∧ outcome clause = .ok target := by
  simp only [bound, List.mem_filterMap, Option.map_eq_some_iff, Prod.mk.injEq]
  constructor
  · rintro ⟨other, hmem, _, htarget, rfl, rfl⟩
    cases h : outcome other with
    | error fault => simp [h, Except.toOption] at htarget
    | ok target => simp_all [Except.toOption]
  · rintro ⟨hmem, h⟩
    exact ⟨clause, hmem, target, by rw [h]; rfl, rfl, rfl⟩

/-- Every clause is bound or not. -/
theorem length_bound_add_unbound (outcome : Clause → Except Fault AttributeRef)
    (clauses : List Clause) :
    (bound outcome clauses).length + (unbound outcome clauses).length = clauses.length := by
  induction clauses with
  | nil => rfl
  | cons clause clauses ih =>
    cases h : outcome clause with
    | ok target =>
      rw [(bound_cons_ok h).1, (bound_cons_ok h).2, List.length_cons, List.length_cons]
      omega
    | error fault =>
      rw [(bound_cons_error h).1, (bound_cons_error h).2, List.length_cons, List.length_cons]
      omega

end

/-- The warnings about clauses that are left out. -/
def dropWarnings (unbound : List (Clause × Fault)) : List String :=
  unbound.map fun (clause, fault) => dropWarning clause fault

/-- A question with bound clauses. -/
def applyAll (node : QueryNode) (bound : List (Clause × AttributeRef)) : QueryNode :=
  bound.foldl (fun node (clause, target) => applyTo node clause target) node

/-- If clauses may be left out, binding adds the others and warns of those. -/
theorem bindBy_drop
    (hunknown : ∀ phrase fault, denoted phrase = .error fault → fault = .unknownTerm phrase)
    (parsed : ParsedQuestion) (clauses : List Clause) :
    bindBy denoted .drop parsed clauses =
      .ok { parsed with
        node := applyAll parsed.node (bound (targetFor denoted parsed.node) clauses)
        warnings := parsed.warnings ++
          dropWarnings (unbound (targetFor denoted parsed.node) clauses) } := by
  induction clauses generalizing parsed with
  | nil => simp [bindBy, bound, unbound, applyAll, dropWarnings]
  | cons clause clauses ih =>
    rw [bindBy, bindOneBy_eq]
    cases h : targetFor denoted parsed.node clause with
    | ok target =>
      -- The clauses that follow are bound as they would be without this one.
      dsimp only [Except.map]
      rw [ih]
      simp only [targetFor_applyTo, bound_cons_ok h]
      rfl
    | error fault =>
      have hdrop := isDroppable_targetFor hunknown h
      dsimp only [Except.map]
      rw [if_neg (by simp [hdrop]), ih]
      simp only [bound_cons_error h, dropWarnings, List.map_cons, List.append_assoc,
        List.singleton_append]

/-- If no clause may be left out, the first that cannot be bound ends the request. -/
theorem bindBy_fail (denoted : String → Except Fault Term) (parsed : ParsedQuestion)
    (clauses : List Clause) :
    bindBy denoted .fail parsed clauses =
      match (unbound (targetFor denoted parsed.node) clauses).head? with
      | none => bindBy denoted .drop parsed clauses
      | some (_, fault) => .error fault := by
  induction clauses generalizing parsed with
  | nil => rfl
  | cons clause clauses ih =>
    rw [bindBy, bindBy, bindOneBy_eq]
    cases h : targetFor denoted parsed.node clause with
    | ok target =>
      dsimp only [Except.map]
      rw [ih]
      simp only [targetFor_applyTo, bound_cons_ok h]
    | error fault => simp [bound_cons_error h, Except.map]

/-! ### What clauses add -/

/-- `result` is `query` with the filters, the sorts and the groups of bound clauses behind its own.
An attribute that is grouped by already is not grouped by again. -/
structure Adds (query result : Select) (bound : List (Clause × AttributeRef)) : Prop where
  entities : result.entities = query.entities
  projection : result.projection = query.projection
  aggregates : result.aggregates = query.aggregates
  filters : result.filters = query.filters ++ bound.filterMap filterOf?
  sorts : result.sorts = query.sorts ++ bound.filterMap sortOf?
  groupBy : ∃ new, result.groupBy = query.groupBy ++ new ∧
    Once ((bound.filterMap groupOf?).removeAll query.groupBy) new
  limit : result.limit = query.limit

/-- Each bound clause adds what it is. -/
theorem applyAll_select (query : Select) (bound : List (Clause × AttributeRef)) :
    applyAll (.select query) bound =
      .select { query with
        filters := query.filters ++ bound.filterMap filterOf?
        sorts := query.sorts ++ bound.filterMap sortOf?
        groupBy := (bound.filterMap groupOf?).foldl pushNew query.groupBy } := by
  induction bound generalizing query with
  | nil => simp [applyAll]
  | cons first bound ih =>
    have hstep : applyAll (.select query) (first :: bound) =
        applyAll (.select (apply query first.1 first.2)) bound := rfl
    simp only [hstep, ih, apply_eq, Prod.eta, List.filterMap_cons, List.append_assoc]
    cases filterOf? first <;> cases sortOf? first <;> cases groupOf? first <;> rfl

theorem adds_applyAll (query : Select) (bound : List (Clause × AttributeRef)) :
    ∃ result, applyAll (.select query) bound = .select result ∧ Adds query result bound :=
  ⟨_, applyAll_select query bound,
    ⟨rfl, rfl, rfl, rfl, rfl, ⟨_, foldl_pushNew .., once_eraseDups _⟩, rfl⟩⟩

/-- A stored statement stays as it is. -/
theorem applyAll_shortcut (shortcut : Shortcut) (bound : List (Clause × AttributeRef)) :
    applyAll (.shortcut shortcut) bound = .shortcut shortcut := by
  induction bound with
  | nil => rfl
  | cons first bound ih => exact ih

/-- `result` is the question `parsed` with the clauses that can be bound added and a warning about
each of the others. -/
structure Accounts (outcome : Clause → Except Fault AttributeRef) (clauses : List Clause)
    (parsed result : ParsedQuestion) : Prop where
  text : result.text = parsed.text
  hits : result.hits = parsed.hits
  confidence : result.confidence = parsed.confidence
  intent : result.intent = parsed.intent
  warnings : result.warnings = parsed.warnings ++ dropWarnings (unbound outcome clauses)
  total : (bound outcome clauses).length + (unbound outcome clauses).length = clauses.length
  source : ∀ clause target, (clause, target) ∈ bound outcome clauses → ∃ query source,
    parsed.node = .select query ∧ query.source? = some source ∧ target.entity = source.name
  select : ∀ query, parsed.node = .select query →
    ∃ bindings, result.node = .select bindings ∧ Adds query bindings (bound outcome clauses)
  shortcut : ∀ shortcut, parsed.node = .shortcut shortcut → result.node = .shortcut shortcut

theorem accounts_bindBy
    (hunknown : ∀ phrase fault, denoted phrase = .error fault → fault = .unknownTerm phrase)
    (parsed : ParsedQuestion) (clauses : List Clause) :
    ∃ result, bindBy denoted .drop parsed clauses = .ok result ∧
      Accounts (targetFor denoted parsed.node) clauses parsed result := by
  refine ⟨_, bindBy_drop hunknown parsed clauses, rfl, rfl, rfl, rfl, rfl,
    length_bound_add_unbound _ _, fun clause target h => ?_, fun query h => ?_,
    fun shortcut h => ?_⟩
  · obtain ⟨query, source, term, hnode, hsource, -, htarget⟩ := targetFor_ok (mem_bound.1 h).2
    exact ⟨query, source, hnode, hsource, entity_of_attributeFor htarget⟩
  · simp only [h]
    exact adds_applyAll _ _
  · simp only [h]
    exact applyAll_shortcut _ _

end Clause

/-! ### Any resolver -/

namespace Vocabulary.Resolver

/-- What a phrase denotes for a resolver. -/
def denotes (resolver : Resolver) (dictionary : Dictionary) (phrase : String) : Except Fault Term :=
  (resolver.resolve dictionary phrase).1

variable {resolver : Resolver} {dictionary : Dictionary}

/-- The index that is built for one phrase is used for the next, so that each phrase denotes what it
would have denoted before. -/
theorem denotes_resolve (resolver : Resolver) (dictionary : Dictionary) (phrase : String) :
    (resolver.resolve dictionary phrase).2.denotes dictionary = resolver.denotes dictionary := by
  funext other
  rw [resolve]
  split
  · rfl
  · simp only [denotes, resolve]
    split <;> rfl

theorem unknown_of_lookUp {index : TermIndex} {threshold : Rat} {phrase : String} {fault : Fault}
    (h : lookUp index threshold phrase = .error fault) : fault = .unknownTerm phrase := by
  rw [lookUp] at h
  generalize (index.find? _).or _ = found at h
  cases found with
  | none => exact (Except.error.inj h).symm
  | some term => contradiction

theorem unknown_of_denotes {phrase : String} {fault : Fault}
    (h : resolver.denotes dictionary phrase = .error fault) : fault = .unknownTerm phrase := by
  rw [denotes, resolve] at h
  split at h
  · exact (Except.error.inj h).symm
  · exact unknown_of_lookUp h

end Vocabulary.Resolver

namespace Clause

variable {resolver : Resolver} {dictionary : Dictionary}

theorem bindOne_denotes (resolver : Resolver) (dictionary : Dictionary) (node : QueryNode)
    (clause : Clause) :
    (bindOne resolver dictionary node clause).1 =
        bindOneBy (resolver.denotes dictionary) node clause ∧
      (bindOne resolver dictionary node clause).2.denotes dictionary =
        resolver.denotes dictionary := by
  cases node with
  | shortcut => exact ⟨rfl, rfl⟩
  | select query =>
    rw [bindOne, bindOneBy]
    cases query.source? with
    | none => exact ⟨rfl, rfl⟩
    | some source =>
      dsimp only
      exact ⟨rfl, Resolver.denotes_resolve resolver dictionary clause.field⟩

/-- Clauses are bound as their fields are denoted at the start, and those that are bound are
counted. -/
theorem bind_eq_bindBy (resolver : Resolver) (dictionary : Dictionary) (policy : UnboundPolicy)
    (parsed : ParsedQuestion) (clauses : List Clause) :
    (Clause.bind resolver dictionary policy parsed clauses).1 =
      (bindBy (resolver.denotes dictionary) policy parsed clauses).map
        (·, (bound (targetFor (resolver.denotes dictionary) parsed.node) clauses).length) := by
  induction clauses generalizing resolver parsed with
  | nil => rfl
  | cons clause clauses ih =>
    obtain ⟨hone, hnext⟩ := bindOne_denotes resolver dictionary parsed.node clause
    rw [Clause.bind, bindBy, ← hone]
    rw [bindOneBy_eq] at hone
    cases hbound : bindOne resolver dictionary parsed.node clause with
    | mk one next =>
      rw [hbound] at hone hnext
      cases h : targetFor (resolver.denotes dictionary) parsed.node clause with
      | ok target =>
        rw [h] at hone
        obtain rfl : one = .ok (applyTo parsed.node clause target) := hone
        dsimp only
        rw [ih, hnext, targetFor_applyTo, (bound_cons_ok h).1]
        cases bindBy (resolver.denotes dictionary) policy
          { parsed with node := applyTo parsed.node clause target } clauses <;> rfl
      | error fault =>
        rw [h] at hone
        obtain rfl : one = .error fault := hone
        dsimp only
        rw [(bound_cons_error h).1]
        split
        · rfl
        · rw [ih, hnext]

/-- If clauses may be left out, binding them never fails: each is either bound and counted, or left
out with a warning.  If none may be left out, the answer is the same as long as all can be bound,
and otherwise the fault of the first that cannot. -/
theorem bind_accounts (resolver : Resolver) (dictionary : Dictionary) (parsed : ParsedQuestion)
    (clauses : List Clause) :
    let outcome := targetFor (resolver.denotes dictionary) parsed.node
    ∃ result count, (Clause.bind resolver dictionary .drop parsed clauses).1 = .ok (result, count) ∧
      count = (bound outcome clauses).length ∧ Accounts outcome clauses parsed result ∧
      (Clause.bind resolver dictionary .fail parsed clauses).1 =
        match (unbound outcome clauses).head? with
        | none => .ok (result, count)
        | some (_, fault) => .error fault := by
  intro outcome
  obtain ⟨result, hresult, haccounts⟩ := @accounts_bindBy (resolver.denotes dictionary)
    (fun _ _ => Resolver.unknown_of_denotes) parsed clauses
  refine ⟨result, _, ?_, rfl, haccounts, ?_⟩
  · rw [bind_eq_bindBy, hresult]
    rfl
  · rw [bind_eq_bindBy, bindBy_fail, hresult]
    cases (unbound outcome clauses).head? <;> rfl

/-! ### Clients of the shop -/

/-- A question about the clients of the shop. -/
def clientQuestion : ParsedQuestion :=
  Question.ofHits ⟨shop, shop_valid⟩ "clients" "clients".toList
    [⟨"clients", some "client", none, none, 0, 7⟩]

/-- The number of a client. -/
def clientId : AttributeRef := ⟨"client", "id", none⟩

/-- Clauses about the number of a client, and one about orders among them. -/
def clientClauses : List Clause :=
  [.filter "client id" .ge (.str "7") true, .sort "amount" .asc, .sort "client id" .desc,
    .groupBy "client id"]

/-- The clause about orders is left out with a warning, or ends the request; the others are
bound. -/
theorem bind_accounts_clients :
    let resolver : Resolver := { schema := ⟨shop, shop_valid⟩ }
    let fault : Fault := .otherEntity "amount" "order" "client"
    ∃ result query,
      (Clause.bind resolver .empty .drop clientQuestion clientClauses).1 = .ok (result, 3) ∧
      result.node = .select query ∧ query.filters = [⟨clientId, .ge, .str "7", true⟩] ∧
      query.sorts = [⟨clientId, .desc⟩] ∧ query.groupBy = [clientId] ∧
      result.warnings = [dropWarning (.sort "amount" .asc) fault] ∧
      (Clause.bind resolver .empty .fail clientQuestion clientClauses).1 = .error fault := by
  intro resolver fault
  obtain ⟨result, count, hdrop, hcount, haccounts, hfail⟩ :=
    bind_accounts resolver .empty clientQuestion clientClauses
  have hbinds (clause : Clause) (hfield : clause.field = "client id") :
      targetFor (resolver.denotes .empty) clientQuestion.node clause = .ok clientId := by
    have hdenotes : (resolver.denotes .empty "client id").bind
        (attributeFor "client id" "client") = .ok clientId := by decide +kernel
    rw [← hfield] at hdenotes
    exact hdenotes
  have hamount : targetFor (resolver.denotes .empty) clientQuestion.node (.sort "amount" .asc) =
      .error fault := by decide +kernel
  have hfilter := hbinds (.filter "client id" .ge (.str "7") true) rfl
  have hsort := hbinds (.sort "client id" .desc) rfl
  have hgroup := hbinds (.groupBy "client id") rfl
  have hbound : bound (targetFor (resolver.denotes .empty) clientQuestion.node) clientClauses =
      [(.filter "client id" .ge (.str "7") true, clientId), (.sort "client id" .desc, clientId),
        (.groupBy "client id", clientId)] := by
    rw [clientClauses, (bound_cons_ok hfilter).1, (bound_cons_error hamount).1,
      (bound_cons_ok hsort).1, (bound_cons_ok hgroup).1]
    rfl
  have hunbound : unbound (targetFor (resolver.denotes .empty) clientQuestion.node) clientClauses =
      [(.sort "amount" .asc, fault)] := by
    rw [clientClauses, (bound_cons_ok hfilter).2, (bound_cons_error hamount).2,
      (bound_cons_ok hsort).2, (bound_cons_ok hgroup).2]
    rfl
  obtain ⟨query, hnode, hadds⟩ := haccounts.select _ rfl
  rw [hbound] at hadds
  obtain ⟨new, hgroups, honce⟩ := hadds.groupBy
  refine ⟨result, query, ?_, hnode, hadds.filters, hadds.sorts, ?_, ?_, ?_⟩
  · rw [hdrop, hcount, hbound]
    rfl
  · rw [hgroups, honce.unique (once_eraseDups _)]
    decide +kernel
  · rw [haccounts.warnings, hunbound]
    rfl
  · rw [hfail, hunbound]
    rfl

end Clause

end AskSql
