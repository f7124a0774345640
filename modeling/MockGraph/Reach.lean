/-!
# `Reach`: what can be reached in a finite graph

`reach next nodes starts` lists the nodes that lie on a path of `next` from one of `starts`, where a
path never leaves `nodes`. Each node is listed once, in the order in which a search that goes deep
first comes to it.

`strays next label limit start` tells whether there is a way back to `start`, or one that is too
long.
-/

set_option autoImplicit false

namespace MockGraph

/-- The nodes on paths from `pending` inside `nodes`. A node that is found is taken out of `nodes`,
so the search ends. -/
def reach {α : Type} [DecidableEq α] (next : α → List α) (nodes : List α) : List α → List α
  | [] => []
  | a :: pending =>
    if a ∈ nodes then a :: reach next (nodes.erase a) (next a ++ pending)
    else reach next nodes pending
termination_by pending => (nodes.length, pending.length)
decreasing_by
  · next h =>
    have := List.length_erase_of_mem h
    have := List.length_pos_of_mem h
    exact Prod.Lex.left _ _ (by omega)
  · exact Prod.Lex.right _ (by simp)

/-- Whether a path that goes on with `a` may come back to its start or get too long. The labels of the
nodes on the path are `path`; the path goes on with a node whose label is new, at most `left` times.
Among the nodes with the label of one on the path, `isStart` holds for the start. -/
def straysFrom {α β : Type} [DecidableEq β] (next : α → List α) (label : α → β)
    (isStart : α → Bool) : Nat → List β → α → Bool
  | 0, path, a => if label a ∈ path then isStart a else true
  | left + 1, path, a =>
    if label a ∈ path then isStart a
    else (next a).any (straysFrom next label isStart left (label a :: path))

/-- Whether a path from `start` that enters no label twice may come back to `start`, or may enter more
than `limit` nodes, `start` included. -/
def strays {α β : Type} [DecidableEq α] [DecidableEq β] (next : α → List α) (label : α → β)
    (limit : Nat) (start : α) : Bool :=
  (next start).any (straysFrom next label (decide <| · = start) (limit - 1) [label start])

end MockGraph
