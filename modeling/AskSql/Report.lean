import AskSql.Compiler
import AskSql.Json.Printer

/-! Compiled questions as JSON.  The fields of each record come in a fixed order, and what is absent
is null. -/

namespace AskSql

open Numeric

namespace Json

/-- A string or null. -/
def ofText? (s : Option String) : Json :=
  (s.map Json.str).getD .null

/-- A natural number. -/
def ofNat (n : Nat) : Json :=
  .num (.int n)

/-- A list of strings. -/
def ofTexts (texts : List String) : Json :=
  .arr (texts.map .str)

end Json

open Json

/-- An entity of a query. -/
def EntityRef.json (e : EntityRef) : Json :=
  .obj [("name", .str e.name), ("alias", ofText? e.shownAs)]

/-- An attribute of a query. -/
def AttributeRef.json (a : AttributeRef) : Json :=
  .obj [("entity", .str a.entity), ("attribute", .str a.name), ("alias", ofText? a.shownAs)]

/-- An aggregate of a query. -/
def Aggregate.json (a : Aggregate) : Json :=
  .obj [("function", .str a.function.keyword),
    ("attribute", (a.target.map (·.json)).getD .null),
    ("alias", ofText? a.shownAs)]

/-- A filter of a query. -/
def Filter.json (f : Filter) : Json :=
  .obj [("attribute", f.target.json), ("operator", .str f.operator.keyword), ("value", f.value),
    ("negate", .bool f.negate)]

/-- A sort of a query. -/
def SortKey.json (s : SortKey) : Json :=
  .obj [("attribute", s.target.json), ("direction", .str s.direction.keyword)]

/-- The fields of a select. -/
def Select.fields (q : Select) : List (String × Json) :=
  [("entities", .arr (q.entities.map (·.json))),
   ("attributes", .arr (q.projection.map (·.json))),
   ("aggregates", .arr (q.aggregates.map (·.json))),
   ("filters", .arr (q.filters.map (·.json))),
   ("sorts", .arr (q.sorts.map (·.json))),
   ("group_by", .arr (q.groupBy.map (·.json))),
   ("limit", (q.limit.map ofNat).getD .null)]

/-- A query, with the kind it is of. -/
def QueryNode.json : QueryNode → Json
  | .select q => .obj (("kind", .str "select") :: q.fields)
  | .shortcut s =>
    .obj [("kind", .str "shortcut"), ("name", .str s.name), ("sql", .str s.sql),
      ("description", .str s.description),
      ("params", .obj (s.params.entries.map fun (name, value) => (name, .str value)))]

/-- A phrase found in a question. -/
def Match.json (m : Match) : Json :=
  .obj [("term", .str m.term), ("entity", ofText? m.entity), ("attribute", ofText? m.attr),
    ("aggregation", ofText? (m.aggregation.map (·.keyword))), ("position", ofNat m.position),
    ("length", ofNat m.length)]

/-- A question with what was found in it, its confidence given. -/
def ParsedQuestion.jsonWith (confidence : Json) (p : ParsedQuestion) : Json :=
  .obj [("original_text", .str p.text), ("node", p.node.json),
    ("matched_terms", .arr (p.hits.map (·.json))), ("confidence", confidence),
    ("intent", .str p.intent.name), ("warnings", ofTexts p.warnings)]

/-- A question with what was found in it. -/
def ParsedQuestion.json (p : ParsedQuestion) : Json :=
  p.jsonWith (.num (.real (.ofRat p.confidence)))

/-- A compiled question. -/
def Compiled.json (c : Compiled) : Json :=
  .obj [("sql", ofText? c.sql), ("dialect", .str c.dialect.name), ("parsed", c.parsed.json)]

end AskSql
