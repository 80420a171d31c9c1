import AskSql.Clause.Basic
import AskSql.Vocabulary.Resolver

/-! Binding of clauses to a query.  The field of a clause is resolved as a term, which must denote
an attribute of the entity that the query reads from.  A clause that cannot be bound is left out
with a warning, or ends the request, as the policy has it; a fault of the configuration ends the
request in any case. -/

namespace AskSql.Clause

open Vocabulary

/-- The attribute of `source` that a term denotes, where `field` is the phrase that named it. -/
def attributeFor (field source : String) (term : Term) : Except Fault AttributeRef :=
  match term.entity, term.attr with
  | some entity, some attr =>
    if entity = source then .ok ⟨entity, attr, none⟩
    else .error (.otherEntity field entity source)
  | _, _ => .error (.notAColumn field)

/-- The query with a clause whose field is bound. -/
def apply (query : Select) (clause : Clause) (target : AttributeRef) : Select :=
  match clause with
  | .filter _ operator value negate =>
    { query with filters := query.filters ++ [⟨target, operator, value, negate⟩] }
  | .sort _ direction => { query with sorts := query.sorts ++ [⟨target, direction⟩] }
  | .groupBy _ =>
    if query.groupBy.contains target then query
    else { query with groupBy := query.groupBy ++ [target] }

/-- The query with one more clause, or why it cannot be bound.  A stored statement takes none. -/
def bindOne (resolver : Resolver) (dictionary : Dictionary) (node : QueryNode) (clause : Clause) :
    Except Fault QueryNode × Resolver :=
  match node with
  | .shortcut shortcut => (.error (.shortcutWithClause shortcut.name), resolver)
  | .select query =>
    match query.source? with
    | none => (.error .noSource, resolver)
    | some source =>
      let (term, resolver) := resolver.resolve dictionary clause.field
      let target := term.bind (attributeFor clause.field source.name)
      (target.map fun target => .select (apply query clause target), resolver)

/-- Whether a clause that meets a fault may be left out. -/
def isDroppable (fault : Fault) : Bool :=
  !fault.isFatal || fault.kind == .validation

/-- The warning that a clause was left out. -/
def dropWarning (clause : Clause) (fault : Fault) : String :=
  "Dropped " ++ clause.kind ++ " on '" ++ clause.field ++ "': " ++ fault.message

/-- The question with its clauses bound, and the number of clauses that were. -/
def bind (resolver : Resolver) (dictionary : Dictionary) (policy : UnboundPolicy)
    (parsed : ParsedQuestion) : List Clause → Except Fault (ParsedQuestion × Nat) × Resolver
  | [] => (.ok (parsed, 0), resolver)
  | clause :: clauses =>
    match bindOne resolver dictionary parsed.node clause with
    | (.ok node, resolver) =>
      let (rest, resolver) := bind resolver dictionary policy { parsed with node } clauses
      (rest.map fun (parsed, bound) => (parsed, bound + 1), resolver)
    | (.error fault, resolver) =>
      if !isDroppable fault || policy = .fail then (.error fault, resolver)
      else
        let warnings := parsed.warnings ++ [dropWarning clause fault]
        bind resolver dictionary policy { parsed with warnings } clauses

end AskSql.Clause
