import Mathlib.Data.List.Induction
import Mathlib.Data.List.Nodup
import Kubespray.Lib.Transition

/-!
# Optimistic updates of a shared document

A store keeps a document under a version, and takes a replacement of it only if this carries the
version that the document has now; every write gives a version that the document has not had before.
A client reads the document, patches its copy and replaces the document by the copy; when this fails
it begins again, until it has been refused `retries` times. Other clients write in between, and the
store may fail to answer, also after it has taken a replacement.

`Reachable.replay` says that no update is lost in any interleaving: the document is what the updates
of all clients, one after another, have made of the first one. `Reachable.disturbed` says that
the client gives up only after it has been disturbed more than `retries` times.
-/

universe u v

namespace Optimistic

/-- Documents that carry their version. -/
structure Versioned (D : Type u) (V : Type v) where
  version : D → V
  /-- The document with another version. -/
  stamp : V → D → D
  version_stamp : ∀ v d, version (stamp v d) = v

/-- A store, with all documents it has kept. -/
structure Store {D : Type u} {V : Type v} (A : Versioned D V) where
  document : D
  /-- The earlier documents, the newest first. -/
  earlier : List D
  /-- No version is given twice. -/
  nodup : ((document :: earlier).map A.version).Nodup

/-- The client. -/
inductive Client (D : Type u) where
  /-- It is about to read the document. -/
  | ready
  /-- It has read this document. -/
  | read (d : D)
  /-- The document has been replaced. -/
  | completed
  /-- It has given up. -/
  | failed

/-- A write to the store. -/
inductive Update (D : Type u) where
  /-- The update of another client. -/
  | other (f : D → D)
  /-- The patch of this client. -/
  | patch

/-- The state of the store and of the client. -/
structure State {D : Type u} {V : Type v} (A : Versioned D V) where
  store : Store A
  client : Client D
  /-- How often the client has begun again. -/
  retried : Nat
  /-- The updates so far, each with the version it gave to the document. -/
  updates : List (Update D × V)
  /-- How often the client has read the document. -/
  reads : Nat
  /-- How often another client has written, or the store has failed to answer. -/
  disturbances : Nat

section
variable {D : Type u} {V : Type v} {A : Versioned D V}

/-- A write: the document gets a version it has not had before. -/
def Store.write (s : Store A) (v : V) (d : D)
    (hv : v ∉ (s.document :: s.earlier).map A.version) : Store A where
  document := A.stamp v d
  earlier := s.document :: s.earlier
  nodup := by
    rw [List.map_cons, A.version_stamp]
    exact List.nodup_cons.2 ⟨hv, s.nodup⟩

/-- An update of a document. -/
def Update.apply (patch : D → D) : Update D → D → D
  | .other f => f
  | .patch => patch

/-- The document after these updates, one after another. -/
def replay (A : Versioned D V) (patch : D → D) (first : D) (updates : List (Update D × V)) : D :=
  updates.foldl (fun d u => A.stamp u.2 (u.1.apply patch d)) first

/-- The client after a failure of its attempt: it begins again, or gives up. -/
def State.fail (retries : Nat) (s : State A) : State A :=
  if s.retried = retries then { s with client := .failed }
  else { s with client := .ready, retried := s.retried + 1 }

/-- The steps of the store and of the client. -/
inductive Step (patch : D → D) (retries : Nat) : State A → Unit → State A → Prop
  /-- Another client writes. -/
  | other {s : State A} (f : D → D) (v : V)
    (hv : v ∉ (s.store.document :: s.store.earlier).map A.version) :
    Step patch retries s () { s with
      store := s.store.write v (f s.store.document) hv
      updates := s.updates ++ [(.other f, v)]
      disturbances := s.disturbances + 1 }
  /-- The client reads the document. -/
  | read {s : State A} (h : s.client = .ready) :
    Step patch retries s () { s with
      client := .read s.store.document
      reads := s.reads + 1 }
  /-- The store does not answer the client. -/
  | readFails {s : State A} (h : s.client = .ready) :
    Step patch retries s () (State.fail retries { s with disturbances := s.disturbances + 1 })
  /-- The store takes the patched document. -/
  | replace {s : State A} {d : D} (h : s.client = .read d)
    (hversion : A.version (patch d) = A.version s.store.document) (v : V)
    (hv : v ∉ (s.store.document :: s.store.earlier).map A.version) :
    Step patch retries s () { s with
      store := s.store.write v (patch d) hv
      client := .completed
      updates := s.updates ++ [(.patch, v)] }
  /-- The store takes the patched document, and its answer is lost. -/
  | replaceLost {s : State A} {d : D} (h : s.client = .read d)
    (hversion : A.version (patch d) = A.version s.store.document) (v : V)
    (hv : v ∉ (s.store.document :: s.store.earlier).map A.version) :
    Step patch retries s () (State.fail retries { s with
      store := s.store.write v (patch d) hv
      updates := s.updates ++ [(.patch, v)]
      disturbances := s.disturbances + 1 })
  /-- The store refuses the patched document: it has another version. -/
  | conflict {s : State A} {d : D} (h : s.client = .read d)
    (hversion : A.version (patch d) ≠ A.version s.store.document) :
    Step patch retries s () (State.fail retries s)
  /-- The store does not take the patched document, for another reason. -/
  | replaceFails {s : State A} {d : D} (h : s.client = .read d) :
    Step patch retries s () (State.fail retries { s with disturbances := s.disturbances + 1 })

/-- One client that updates a document of a store. -/
def updating (A : Versioned D V) (patch : D → D) (retries : Nat) (first : D) :
    TransitionSystem (State A) Unit where
  init s := s.store.document = first ∧ s.store.earlier = [] ∧ s.client = .ready ∧ s.retried = 0 ∧
    s.updates = [] ∧ s.reads = 0 ∧ s.disturbances = 0
  step := Step patch retries

/-! ## Failures -/

variable {patch : D → D} {retries : Nat} {first : D} {s : State A}

@[simp] theorem State.fail_store (s : State A) : (s.fail retries).store = s.store := by
  rw [State.fail]; split <;> rfl

@[simp] theorem State.fail_updates (s : State A) : (s.fail retries).updates = s.updates := by
  rw [State.fail]; split <;> rfl

@[simp] theorem State.fail_reads (s : State A) : (s.fail retries).reads = s.reads := by
  rw [State.fail]; split <;> rfl

@[simp] theorem State.fail_disturbances (s : State A) :
    (s.fail retries).disturbances = s.disturbances := by
  rw [State.fail]; split <;> rfl

/-- After a failure the client does not hold a document, and is not done. -/
theorem State.fail_client (s : State A) (retries : Nat) :
    (s.fail retries).client = .failed ∧ s.retried = retries ∧
        (s.fail retries).retried = s.retried ∨
      (s.fail retries).client = .ready ∧ s.retried ≠ retries ∧
        (s.fail retries).retried = s.retried + 1 := by
  rw [State.fail]
  split
  · next h => exact .inl ⟨rfl, h, rfl⟩
  · next h => exact .inr ⟨rfl, h, rfl⟩

/-! ## No update is lost -/

/-- The copy of the client is a document that the store has kept, so it is the document of the store
if it has its version. -/
def HoldsCopy (s : State A) : Prop :=
  ∀ d, s.client = .read d → d ∈ s.store.document :: s.store.earlier

theorem Store.eq_of_version (s : Store A) {d : D} (hd : d ∈ s.document :: s.earlier)
    (hversion : A.version d = A.version s.document) : d = s.document :=
  List.inj_on_of_nodup_map s.nodup hd List.mem_cons_self hversion

theorem HoldsCopy.fail (s : State A) : HoldsCopy (s.fail retries) := by
  intro d hd
  rcases s.fail_client retries with ⟨hc, -⟩ | ⟨hc, -⟩ <;> rw [hc] at hd <;> cases hd

theorem Reachable.holdsCopy (hs : (updating A patch retries first).Reachable s) : HoldsCopy s := by
  refine hs.invariant (fun s h d hd => ?_) fun s a t _ h hstep => ?_
  · obtain ⟨-, -, hclient, -⟩ := h
    rw [hclient] at hd
    cases hd
  · cases hstep with
    | other f v hv => exact fun d hd => List.mem_cons_of_mem _ (h d hd)
    | read => exact fun d hd => by cases hd; exact List.mem_cons_self
    | replace => exact fun d hd => by cases hd
    | readFails | replaceLost | conflict | replaceFails => exact HoldsCopy.fail _

theorem replay_concat (updates : List (Update D × V)) (u : Update D) (v : V) :
    replay A patch first (updates ++ [(u, v)]) =
      A.stamp v (u.apply patch (replay A patch first updates)) := by
  rw [replay, List.foldl_append]
  rfl

/-- The document is what the updates have made of the first one. -/
theorem Reachable.replay (hpatch : ∀ d, A.version (patch d) = A.version d)
    (hs : (updating A patch retries first).Reachable s) :
    s.store.document = replay A patch first s.updates := by
  refine @TransitionSystem.Reachable.invariant _ _ _
    (fun s => s.store.document = Optimistic.replay A patch first s.updates) _ hs (fun s h => ?_)
    fun s a t hr h hstep => ?_
  · obtain ⟨hdocument, -, -, -, hupdates, -⟩ := h
    rw [hdocument, hupdates]
    rfl
  · -- a replacement that is taken patches the document of the store
    have hcopy : ∀ d, s.client = .read d → A.version (patch d) = A.version s.store.document →
        ∀ v, A.stamp v (patch d) =
          Optimistic.replay A patch first (s.updates ++ [(.patch, v)]) := by
      intro d hd hversion v
      rw [hpatch] at hversion
      rw [replay_concat, ← h, s.store.eq_of_version (Reachable.holdsCopy hr d hd) hversion]
      rfl
    cases hstep with
    | other f v hv =>
      rw [replay_concat, ← h]
      rfl
    | read => exact h
    | replace hc hversion v => exact hcopy _ hc hversion v
    | replaceLost hc hversion v =>
      rw [State.fail_store, State.fail_updates]
      exact hcopy _ hc hversion v
    | readFails | conflict | replaceFails =>
      rw [State.fail_store, State.fail_updates]
      exact h

/-- A client that is done has made its update. -/
theorem Reachable.patched (hs : (updating A patch retries first).Reachable s)
    (hdone : s.client = .completed) : .patch ∈ s.updates.map Prod.fst := by
  refine @TransitionSystem.Reachable.invariant _ _ _
    (fun s => s.client = .completed → .patch ∈ s.updates.map Prod.fst) _ hs (fun s h hd => ?_)
    (fun s a t _ h hstep hd => ?_) hdone
  · obtain ⟨-, -, hclient, -⟩ := h
    rw [hclient] at hd
    cases hd
  · have hfail : ∀ s : State A, (s.fail retries).client ≠ .completed := by
      intro s hd
      rcases s.fail_client retries with ⟨hc, -⟩ | ⟨hc, -⟩ <;> rw [hc] at hd <;>
        cases hd
    cases hstep with
    | other =>
      rw [List.map_append]
      exact List.mem_append_left _ (h hd)
    | read => cases hd
    | replace =>
      rw [List.map_append]
      exact List.mem_append_right _ List.mem_cons_self
    | readFails | replaceLost | conflict | replaceFails => exact absurd hd (hfail _)

/-- What the patch brings about, and neither a new version nor another client after it undoes,
holds. -/
theorem replay_of_patched {P : D → Prop} {updates : List (Update D × V)}
    {before after : List (Update D)} (hpatch : ∀ d, P (patch d))
    (hstamp : ∀ v d, P d → P (A.stamp v d)) (h : updates.map Prod.fst = before ++ .patch :: after)
    (hother : ∀ f, .other f ∈ after → ∀ d, P d → P (f d)) :
    P (Optimistic.replay A patch first updates) := by
  induction updates using List.reverseRecOn generalizing after with
  | nil => simp at h
  | append_singleton updates u ih =>
    obtain ⟨u, v⟩ := u
    rw [List.map_append, List.map_singleton] at h
    rw [replay_concat]
    refine hstamp v _ ?_
    rcases List.eq_nil_or_concat after with rfl | ⟨after, w, rfl⟩
    · -- the last update is the patch
      obtain ⟨-, hu⟩ := List.append_inj' h rfl
      cases List.singleton_inj.1 hu
      exact hpatch _
    · rw [List.concat_eq_append, ← List.cons_append, ← List.append_assoc] at h
      obtain ⟨hbefore, hu⟩ := List.append_inj' h rfl
      cases List.singleton_inj.1 hu
      have hP := ih hbefore fun f hf => hother f (by simp [hf])
      cases u with
      | patch => exact hpatch _
      | other f => exact hother f (by simp) _ hP

/-! ## Giving up -/

/-- What the client has been disturbed for: each time it began again, and a copy that is out of
date. -/
structure Disturbed (retries : Nat) (s : State A) : Prop where
  retried : s.retried ≤ retries
  counted : s.retried ≤ s.disturbances
  stale : ∀ d, s.client = .read d → d ≠ s.store.document → s.retried < s.disturbances
  failed : s.client = .failed → retries < s.disturbances
  /-- In every attempt the client reads the document at most once. -/
  reads : s.reads ≤ s.retried + 1 ∧ (s.client = .ready → s.reads ≤ s.retried)

/-- A failure for which the client has been disturbed. -/
theorem Disturbed.fail (hretried : s.retried ≤ retries) (hcounted : s.retried < s.disturbances)
    (hreads : s.reads ≤ s.retried + 1) : Disturbed retries (s.fail retries) := by
  rcases s.fail_client retries with ⟨hc, heq, hr⟩ | ⟨hc, hne, hr⟩
  · refine ⟨?_, ?_, fun d hd => ?_, fun _ => ?_, ?_, fun hd => ?_⟩
    · rw [hr]
      exact hretried
    · rw [hr, State.fail_disturbances]
      exact Nat.le_of_lt hcounted
    · rw [hc] at hd
      cases hd
    · rw [State.fail_disturbances, ← heq]
      exact hcounted
    · rw [hr, State.fail_reads]
      exact hreads
    · rw [hc] at hd
      cases hd
  · refine ⟨?_, ?_, fun d hd => ?_, fun hd => ?_, ?_, fun _ => ?_⟩
    · rw [hr]
      omega
    · rw [hr, State.fail_disturbances]
      exact hcounted
    · rw [hc] at hd
      cases hd
    · rw [hc] at hd
      cases hd
    · rw [hr, State.fail_reads]
      omega
    · rw [hr, State.fail_reads]
      exact hreads

/-- In every run the client reads the document at most `retries + 1` times, and gives up only if it
has been disturbed as often. -/
theorem Reachable.disturbed (hpatch : ∀ d, A.version (patch d) = A.version d)
    (hs : (updating A patch retries first).Reachable s) : Disturbed retries s := by
  refine hs.invariant (fun s h => ?_) fun s a t hr h hstep => ?_
  · obtain ⟨-, -, hclient, hretried, -, hreads, hdisturbances⟩ := h
    refine ⟨?_, ?_, fun d hd => ?_, fun hd => ?_, ?_, fun _ => ?_⟩
    · rw [hretried]
      exact Nat.zero_le _
    · rw [hretried]
      exact Nat.zero_le _
    · rw [hclient] at hd
      cases hd
    · rw [hclient] at hd
      cases hd
    · rw [hreads]
      exact Nat.zero_le _
    · rw [hreads]
      exact Nat.zero_le _
  · cases hstep with
    | other f v hv =>
      exact ⟨h.retried, Nat.le_succ_of_le h.counted, fun _ _ _ => Nat.lt_succ_of_le h.counted,
        fun hd => Nat.lt_succ_of_lt (h.failed hd), h.reads⟩
    | read hc =>
      refine ⟨h.retried, h.counted, fun d hd hne => ?_, fun hd => ?_, ?_, fun hd => ?_⟩
      · cases hd
        exact absurd rfl hne
      · cases hd
      · exact Nat.succ_le_succ (h.reads.2 hc)
      · cases hd
    | replace hc hversion v hv =>
      refine ⟨h.retried, h.counted, fun d hd => ?_, fun hd => ?_, h.reads.1, fun hd => ?_⟩ <;>
        cases hd
    | readFails | replaceLost | replaceFails =>
      exact Disturbed.fail h.retried (Nat.lt_succ_of_le h.counted) h.reads.1
    | conflict hc hversion =>
      -- another client has written since the document was read
      refine Disturbed.fail h.retried (h.stale _ hc fun heq => hversion ?_) h.reads.1
      rw [hpatch, heq]

end
end Optimistic
