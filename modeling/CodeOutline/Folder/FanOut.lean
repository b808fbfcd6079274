/-! # Fanning out work

Items are worked on several at a time, and the results are delivered in the order of the
items.  Items are taken up in order, at most `width` are under way at any moment, and the
first one under way is delivered once it is done; which of those under way is done next is
left open.

`Step` is the relation between the states of such a process.  `run` follows it along one of
its paths: it delivers what it can, takes up what fits, and otherwise completes the first item.
-/

namespace CodeOutline

structure FanOut (α β : Type) where
  waiting : List α
  /-- The items under way, with their results if they are done. -/
  underWay : List (α × Option β)
  delivered : List β

namespace FanOut

variable {α β : Type}

def start (items : List α) : FanOut α β :=
  ⟨items, [], []⟩

inductive Step (work : α → β) (width : Nat) : FanOut α β → FanOut α β → Prop where
  | takeUp (item : α) (waiting : List α) (underWay : List (α × Option β)) (delivered : List β) :
    underWay.length < width →
    Step work width ⟨item :: waiting, underWay, delivered⟩
      ⟨waiting, underWay ++ [(item, none)], delivered⟩
  | complete (waiting : List α) (before after : List (α × Option β)) (item : α)
      (delivered : List β) :
    Step work width ⟨waiting, before ++ (item, none) :: after, delivered⟩
      ⟨waiting, before ++ (item, some (work item)) :: after, delivered⟩
  | deliver (waiting : List α) (item : α) (result : β) (underWay : List (α × Option β))
      (delivered : List β) :
    Step work width ⟨waiting, (item, some result) :: underWay, delivered⟩
      ⟨waiting, underWay, delivered ++ [result]⟩

inductive Steps (work : α → β) (width : Nat) : FanOut α β → FanOut α β → Prop where
  | refl (state : FanOut α β) : Steps work width state state
  | step {a b c : FanOut α β} : Step work width a b → Steps work width b c → Steps work width a c

def isDone (state : FanOut α β) : Bool :=
  state.waiting.isEmpty && state.underWay.isEmpty

def next? (work : α → β) (width : Nat) : FanOut α β → Option (FanOut α β)
  | ⟨waiting, (_, some result) :: underWay, delivered⟩ =>
    some ⟨waiting, underWay, delivered ++ [result]⟩
  | ⟨item :: waiting, underWay, delivered⟩ =>
    if underWay.length < width then some ⟨waiting, underWay ++ [(item, none)], delivered⟩
    else
      match underWay with
      | [] => none
      | (first, _) :: rest =>
        some ⟨item :: waiting, (first, some (work first)) :: rest, delivered⟩
  | ⟨[], (first, none) :: rest, delivered⟩ =>
    some ⟨[], (first, some (work first)) :: rest, delivered⟩
  | ⟨[], [], _⟩ => none

def advance (work : α → β) (width : Nat) : Nat → FanOut α β → FanOut α β
  | 0, state => state
  | steps + 1, state =>
    match next? work width state with
    | none => state
    | some state => advance work width steps state

/-- The results for all items, with at least one under way at a time.  Three steps for each
    item are enough. -/
def run (work : α → β) (width : Nat) (items : List α) : List β :=
  (advance work (max width 1) (3 * items.length) (start items)).delivered

end FanOut

end CodeOutline
