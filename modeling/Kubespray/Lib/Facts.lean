import Mathlib.Data.List.Induction

/-!
# Facts of hosts

The tasks of a play set variables of its hosts, its facts. A task runs on every host of the play,
with `run_once` on the first one only, and what such a task sets holds for all of them; a loop with
`delegate_facts` sets the facts of other hosts. -/

universe u v

/-- A variable of the hosts, by the hosts on which it is defined. -/
abbrev HostFact (α : Type u) (β : Type v) := α → Option β

namespace HostFact

variable {α : Type u} {β : Type v} [DecidableEq α] {fact : HostFact α β} {hosts : List α} {h : α}
  {x : β}

/-- The value is set on all these hosts. -/
def setOn (hosts : List α) (x : β) (fact : HostFact α β) : HostFact α β :=
  fun h => if h ∈ hosts then some x else fact h

/-- A task with `run_once`: the value on the first host, if the condition of the task holds there,
is set on all hosts of the play. -/
def setOnce (play : List α) (value : α → Option β) (fact : HostFact α β) : HostFact α β :=
  match play.head?.bind value with
  | some x => setOn play x fact
  | none => fact

theorem setOn_of_mem (hh : h ∈ hosts) : setOn hosts x fact h = some x := if_pos hh

/-- Values that are set one after another on the same hosts leave the last one. -/
theorem foldl_setOn_of_mem (hh : h ∈ hosts) (xs : List β) :
    xs.foldl (fun fact x => setOn hosts x fact) fact h = xs.getLast?.or (fact h) := by
  induction xs using List.reverseRecOn with
  | nil => rfl
  | append_singleton xs x _ =>
    rw [List.foldl_append, List.foldl_cons, List.foldl_nil, setOn_of_mem hh, List.getLast?_concat,
      Option.some_or]

end HostFact
