import Provenance.Expr.Basic
import Provenance.Scalar.Reading

/-!
# Expressions read from a document

The inverse of how expressions are written. Arguments of a call, and the argument of an aggregate, may be
left out.
-/

namespace Provenance

open Document

/-- A column read from a record. -/
def ColumnName.read? [Document α] (depth : Nat) (v : α) : Option ColumnName := do
  if depth = 0 then none
  else
    match ← record? ["table", "column"] v with
    | [some table, some column] => some ⟨← text? table, ← text? column⟩
    | _ => none

/-- A column of a cube read from a record. -/
def CubeColumn.read? [Document α] (depth : Nat) (v : α) : Option CubeColumn := do
  if depth = 0 then none
  else
    match ← record? ["cube", "column"] v with
    | [some cube, some column] => some ⟨← text? cube, ← text? column⟩
    | _ => none

namespace Expr

/-- An expression read from a document in which `depth` more lists and records may stand inside each
other. An expression is one record, and what it is made of another one inside it. -/
def read? [Document α] : Nat → α → Option Expr
  | 0, _ => none
  | 1, v =>
    match variant? v with
    | some ("literal", some content) => (Scalar.read? 0 content).map .literal
    | _ => none
  | depth + 2, v =>
    match variant? v with
    | some (kind, some content) =>
      match kind with
      | "literal" => (Scalar.read? (depth + 1) content).map .literal
      | "column" => (ColumnName.read? (depth + 1) content).map .column
      | "speculative" => (CubeColumn.read? (depth + 1) content).map .speculative
      | "member" => do
        match ← variantRecord? ["hierarchy", "member", "of"] content with
        | [some hierarchy, some ancestor, some of] =>
          some (.member (← text? hierarchy) (← text? ancestor) (← read? depth of))
        | _ => none
      | "unary" => do
        match ← variantRecord? ["op", "arg"] content with
        | [some op, some arg] =>
          some (.unary (← UnaryOp.ofName? (← name? depth op)) (← read? depth arg))
        | _ => none
      | "binary" => do
        match ← variantRecord? ["op", "lhs", "rhs"] content with
        | [some op, some left, some right] =>
          some (.binary (← BinaryOp.ofName? (← name? depth op)) (← read? depth left)
            (← read? depth right))
        | _ => none
      | "call" => do
        match ← variantRecord? ["function", "args"] content with
        | [some function, none] => some (.call (← text? function) [])
        | [some function, some args] =>
          match depth with
          | 0 => none
          | depth + 1 => some (.call (← text? function) (← list? (read? depth) args))
        | _ => none
      | "aggregate" => do
        match ← variantRecord? ["func", "arg"] content with
        | [some func, arg] =>
          let func ← AggregateFn.ofName? (← name? depth func)
          match arg with
          | none => some (.aggregateRows func)
          | some arg =>
            if isMissing arg then some (.aggregateRows func)
            else some (.aggregate func (← read? depth arg))
        | _ => none
      | _ => none
    | _ => none

end Expr

end Provenance
