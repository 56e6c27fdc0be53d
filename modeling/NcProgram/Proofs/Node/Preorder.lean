import NcProgram.Node.OfTree
import NcProgram.Node.Outline

namespace NcProgram

/-- What has a row of its own in an outline. A line end is an item as well. -/
inductive Outlined where
  | document (d : Document Item)
  | line (l : Line Item)
  | item (i : Item)

namespace Outlined

/-- The word that the row of a node starts with. -/
def label : Outlined → String
  | document d => d.kind.name
  | line _ => "line"
  | item (.field _) => "field"
  | item (.checksum _) => "checksum"
  | item (.trivia t) => t.kind.label

/-- The row of a node without the rows of its parts. -/
def row : Outlined → Except Fault String
  | document d => .ok (documentRow d.kind d.span)
  | line l => .ok (lineRow l.span)
  | item i => i.row

end Outlined

/-- The nodes of a line at a depth: the line and its items below it. -/
def Line.nodes (depth : Nat) (l : Line Item) : List (Nat × Outlined) :=
  (depth, .line l) :: l.items.map fun i => (depth + 1, .item i)

/-- The nodes of a document with their depths: the document, and below it the lines, each with its
items and its line end, and the last line. -/
def Document.nodes (d : Document Item) : List (Nat × Outlined) :=
  (0, .document d) :: ((d.lines.flatMap fun p => p.1.nodes 1 ++ [(1, .item (.trivia p.2))]) ++
    d.lastLine.toList.flatMap (Line.nodes 1))

def Parsed.nodes : Parsed → List (Nat × Outlined)
  | document d => d.nodes
  | line l => l.nodes 0

theorem Line.forall_mem_nodes (P : Outlined → Prop) {l : Line Item} (hline : P (.line l))
    (hitems : ∀ i ∈ l.items, P (.item i)) (depth : Nat) : ∀ n ∈ l.nodes depth, P n.2 := by
  simpa [nodes, hline] using hitems

theorem Document.forall_mem_nodes (P : Outlined → Prop) {d : Document Item} (hdocument : P (.document d))
    (hlines : ∀ p ∈ d.lines, (∀ n ∈ p.1.nodes 1, P n.2) ∧ P (.item (.trivia p.2)))
    (hlast : ∀ l ∈ d.lastLine, ∀ n ∈ l.nodes 1, P n.2) : ∀ n ∈ d.nodes, P n.2 := by
  rw [nodes, List.forall_mem_cons, List.forall_mem_append]
  refine ⟨hdocument, ?_, ?_⟩
  · intro n hn
    obtain ⟨p, hp, hn⟩ := List.mem_flatMap.mp hn
    obtain ⟨hnodes, hending⟩ := hlines p hp
    rcases List.mem_append.mp hn with hn | hn
    · exact hnodes n hn
    · rw [List.mem_singleton.mp hn]
      exact hending
  · intro n hn
    obtain ⟨l, hl, hn⟩ := List.mem_flatMap.mp hn
    exact hlast l (Option.mem_toList.mp hl) n hn

/-- The row of a node at its depth. -/
def Outlined.indentedRow (indent : String) (n : Nat × Outlined) : Except Fault String :=
  indented indent n.1 <$> n.2.row

open Outlined

variable {indent : String} {depth : Nat}

theorem rowsOfNodes_eq (items : List Item) : rowsOfNodes indent depth (items.map .item) =
    (items.map fun i => (depth, Outlined.item i)).mapM (indentedRow indent) := by
  induction items with
  | nil => rfl
  | cons i items ih =>
      simp only [List.map_cons, rowsOfNodes, Node.rows, ih, List.mapM_cons, indentedRow, Outlined.row,
        map_eq_pure_bind, bind_assoc, pure_bind, List.singleton_append]

theorem Line.rows_eq (l : Line Item) : (Node.ofLine l).rows indent depth =
    (l.nodes depth).mapM (indentedRow indent) := by
  have hitems : (l.map Node.item).items = l.items.map .item := rfl
  rw [Node.ofLine, Node.rows, hitems, rowsOfNodes_eq, nodes, List.mapM_cons]
  rfl

theorem rowsOfLast_eq (last : Option (Line Item)) :
    rowsOfLast indent depth (last.map (Line.map .item)) =
      (last.toList.flatMap (Line.nodes depth)).mapM (indentedRow indent) := by
  cases last with
  | none => rfl
  | some l =>
      rw [Option.toList_some, List.flatMap_singleton, ← Line.rows_eq]
      rfl

theorem rowsOfLines_eq (pairs : List (Line Item × Trivia)) :
    rowsOfLines indent depth (pairs.map fun p => (p.1.map .item, p.2)) =
      (pairs.flatMap fun p => p.1.nodes depth ++ [(depth, .item (.trivia p.2))]).mapM
        (indentedRow indent) := by
  induction pairs with
  | nil => rfl
  | cons p pairs ih =>
      rw [List.flatMap_cons, List.mapM_append, List.mapM_append, ← Line.rows_eq, ← ih]
      simp only [List.map_cons, rowsOfLines, Node.ofLine, Node.rows, List.mapM_cons, List.mapM_nil,
        indentedRow, Outlined.row, Item.row, map_eq_pure_bind, bind_assoc, pure_bind,
        List.append_assoc, List.cons_append, List.nil_append]

theorem Document.rows_eq (d : Document Item) : (Node.ofDocument d).rows indent 0 =
    d.nodes.mapM (indentedRow indent) := by
  have hlines : (d.map Node.item).lines = d.lines.map fun p => (p.1.map .item, p.2) := rfl
  have hlast : (d.map Node.item).lastLine = d.lastLine.map (Line.map .item) := rfl
  rw [Node.ofDocument, Node.rows, hlines, hlast, rowsOfLines_eq, rowsOfLast_eq, nodes, List.mapM_cons,
    List.mapM_append]
  simp only [bind_assoc, pure_bind]
  rfl

/-- An outline has a row for each node, in order. -/
theorem Parsed.rows_eq (p : Parsed) : p.toNode.rows indent 0 = p.nodes.mapM (indentedRow indent) := by
  cases p with
  | document d => exact d.rows_eq
  | line l => exact l.rows_eq

end NcProgram
