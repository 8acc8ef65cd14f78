import Mathlib.Algebra.BigOperators.Group.Finset.Basic
import Mathlib.Algebra.BigOperators.Group.Finset.Piecewise
import Mathlib.Algebra.GroupWithZero.Nat
import Mathlib.Data.List.Nodup

namespace XMachine.Lib

/-!
# Library — networks of mailboxes

Nodes numbered from zero, each with one inbound queue.  Sending appends to the
receiver's queue; a node removes any entry of its own (the first one, where the
network is FIFO).

* `weight` — a sum over all messages in the mailboxes of the first nodes, each
  valued by a function of its place and contents.  `weight_push`, `weight_take`
  say what one send and one receipt do to it; counting arguments about messages
  in flight use nothing else.
* `stream` — the queues along a path of nodes read as one list, the end of the
  path first.  `stream_push`, `stream_take` and `stream_hop` say that a message
  passed to the next node keeps its place among the messages of the path.
-/

/-- One inbound queue per node. -/
abbrev Mailboxes (M : Type) := ℕ → List M

namespace Mailboxes

variable {M : Type}

/-- Append `m` to the queue of node `i`. -/
def push (q : Mailboxes M) (i : ℕ) (m : M) : Mailboxes M := Function.update q i (q i ++ [m])

/-- Append each message to the queue it is addressed to, in order. -/
def pushAll (q : Mailboxes M) : List (ℕ × M) → Mailboxes M
  | [] => q
  | (i, m) :: out => (q.push i m).pushAll out

theorem pushAll_append (q : Mailboxes M) (out out' : List (ℕ × M)) :
    q.pushAll (out ++ out') = (q.pushAll out).pushAll out' := by
  induction out generalizing q with
  | nil => rfl
  | cons e out ih => exact ih (q.push e.1 e.2)

/-- Take the `k`-th message out of the queue of node `i`. -/
def take (q : Mailboxes M) (i k : ℕ) : Mailboxes M := Function.update q i ((q i).eraseIdx k)

/-! ### Weights -/

/-- A finite sum after one of its arguments changed. -/
theorem sum_update {A : Type} {t : Finset ℕ} {i : ℕ} (g : ℕ → A → ℕ) (f : ℕ → A) (x : A)
    (hi : i ∈ t) :
    ∑ j ∈ t, g j (Function.update f i x j) + g i (f i) = ∑ j ∈ t, g j (f j) + g i x := by
  have hrest : ∑ j ∈ t.erase i, g j (Function.update f i x j) = ∑ j ∈ t.erase i, g j (f j) := by
    refine Finset.sum_congr rfl fun j hj => ?_
    rw [Function.update_of_ne (Finset.ne_of_mem_erase hj)]
  rw [← Finset.add_sum_erase t _ hi, ← Finset.add_sum_erase t (fun j => g j (f j)) hi, hrest,
    Function.update_self]
  omega

/-- The values `w i m` of all messages `m` in the queues of the nodes `i ≤ n`. -/
def weight (n : ℕ) (w : ℕ → M → ℕ) (q : Mailboxes M) : ℕ :=
  ∑ i ∈ Finset.range (n + 1), ((q i).map (w i)).sum

theorem weight_update {n i : ℕ} (w : ℕ → M → ℕ) (q : Mailboxes M) (l : List M) (hi : i ≤ n) :
    weight n w (Function.update q i l) + ((q i).map (w i)).sum
      = weight n w q + (l.map (w i)).sum :=
  sum_update (fun j l => (l.map (w j)).sum) q l (Finset.mem_range.mpr (by omega))

theorem weight_push {n i : ℕ} (w : ℕ → M → ℕ) (q : Mailboxes M) (m : M) (hi : i ≤ n) :
    weight n w (q.push i m) = weight n w q + w i m := by
  have h := weight_update w q (q i ++ [m]) hi
  rw [List.map_append, List.sum_append, List.map_singleton, List.sum_singleton] at h
  rw [push]
  omega

/-- The same for a node that may lie outside the sum. -/
theorem weight_push_le (n : ℕ) (w : ℕ → M → ℕ) (q : Mailboxes M) (i : ℕ) (m : M) :
    weight n w (q.push i m) ≤ weight n w q + w i m := by
  by_cases hi : i ≤ n
  · exact (weight_push w q m hi).le
  · refine le_of_eq_of_le (Finset.sum_congr rfl fun j hj => ?_) (Nat.le_add_right _ _)
    have hj : j ≠ i := by
      have := Finset.mem_range.mp hj
      omega
    rw [push, Function.update_of_ne hj]

theorem weight_pushAll {n : ℕ} (w : ℕ → M → ℕ) (q : Mailboxes M) (out : List (ℕ × M))
    (hout : ∀ p ∈ out, p.1 ≤ n) :
    weight n w (q.pushAll out) = weight n w q + (out.map fun p => w p.1 p.2).sum := by
  induction out generalizing q with
  | nil => simp [pushAll]
  | cons p out ih =>
    have hp := hout p (by simp)
    rw [pushAll, ih _ fun p' hp' => hout p' (by simp [hp']), weight_push w q p.2 hp,
      List.map_cons, List.sum_cons]
    omega

/-- The same for nodes that may lie outside the sum. -/
theorem weight_pushAll_le (n : ℕ) (w : ℕ → M → ℕ) (q : Mailboxes M) (out : List (ℕ × M)) :
    weight n w (q.pushAll out) ≤ weight n w q + (out.map fun p => w p.1 p.2).sum := by
  induction out generalizing q with
  | nil => exact Nat.le_refl _
  | cons p out ih =>
    have hfirst := weight_push_le n w q p.1 p.2
    have hrest := ih (q.push p.1 p.2)
    rw [pushAll, List.map_cons, List.sum_cons]
    omega

theorem weight_take {n i k : ℕ} (w : ℕ → M → ℕ) (q : Mailboxes M) {m : M} (hi : i ≤ n)
    (hm : (q i)[k]? = some m) : weight n w (q.take i k) + w i m = weight n w q := by
  obtain ⟨hk, rfl⟩ := List.getElem?_eq_some_iff.mp hm
  have h := weight_update w q ((q i).eraseIdx k) hi
  have hsum : ((q i).map (w i)).sum = w i (q i)[k] + (((q i).eraseIdx k).map (w i)).sum := by
    rw [List.eraseIdx_eq_take_drop_succ, List.map_append, List.sum_append]
    conv_lhs => rw [← List.take_append_drop k (q i), List.drop_eq_getElem_cons hk]
    rw [List.map_append, List.sum_append, List.map_cons, List.sum_cons]
    omega
  rw [take]
  omega

/-! ### Streams -/

variable {X : Type}

/-- A list splits in one way into a part with `P` and a part without. -/
theorem split_unique {P : X → Prop} {u u' w w' : List X} (hu : ∀ e ∈ u, P e) (hu' : ∀ e ∈ u', P e)
    (hw : ∀ e ∈ w, ¬ P e) (hw' : ∀ e ∈ w', ¬ P e) (h : u ++ w = u' ++ w') : u = u' ∧ w = w' := by
  induction u generalizing u' with
  | nil =>
    cases u' with
    | nil => exact ⟨rfl, h⟩
    | cons e u' =>
      refine absurd (hu' e List.mem_cons_self) (hw e ?_)
      rw [List.nil_append] at h
      simp [h]
  | cons e u ih =>
    cases u' with
    | nil =>
      refine absurd (hu e List.mem_cons_self) (hw' e ?_)
      rw [List.nil_append] at h
      simp [← h]
    | cons e' u' =>
      obtain ⟨rfl, htail⟩ := List.cons.inj h
      obtain ⟨rfl, rfl⟩ := ih (fun x hx => hu x (List.mem_cons_of_mem e hx))
        (fun x hx => hu' x (List.mem_cons_of_mem e hx)) htail
      exact ⟨rfl, rfl⟩

/-- The queues of the nodes of `path` as one list, each entry with its node. -/
def stream (path : List ℕ) (f : ℕ → List X) : List (ℕ × X) :=
  path.flatMap fun i => (f i).map fun x => (i, x)

theorem mem_stream {path : List ℕ} {f : ℕ → List X} {e : ℕ × X} :
    e ∈ stream path f ↔ e.1 ∈ path ∧ e.2 ∈ f e.1 := by
  rw [stream, List.mem_flatMap]
  constructor
  · rintro ⟨i, hi, he⟩
    obtain ⟨x, hx, rfl⟩ := List.mem_map.mp he
    exact ⟨hi, hx⟩
  · rintro ⟨hp, hx⟩
    exact ⟨e.1, hp, List.mem_map.mpr ⟨e.2, hx, rfl⟩⟩

theorem forall_stream {P : ℕ → Prop} {path : List ℕ} (f : ℕ → List X) (h : ∀ i ∈ path, P i) :
    ∀ e ∈ stream path f, P e.1 := fun e he => h e.1 (mem_stream.mp he).1

theorem stream_append (p p' : List ℕ) (f : ℕ → List X) :
    stream (p ++ p') f = stream p f ++ stream p' f := List.flatMap_append

theorem stream_cons (i : ℕ) (p : List ℕ) (f : ℕ → List X) :
    stream (i :: p) f = ((f i).map fun x => (i, x)) ++ stream p f := List.flatMap_cons

/-- Queues off the path do not matter. -/
theorem stream_update_of_notMem {path : List ℕ} {i : ℕ} (f : ℕ → List X) (l : List X)
    (h : i ∉ path) : stream path (Function.update f i l) = stream path f := by
  induction path with
  | nil => rfl
  | cons j p ih =>
    obtain ⟨hij, hp⟩ := not_or.mp (fun h' => h (List.mem_cons.mpr h'))
    rw [stream_cons, stream_cons, Function.update_of_ne (Ne.symm hij), ih hp]

variable {p s : List ℕ} {i j : ℕ} (f : ℕ → List X)

/-- A message sent to `i` goes behind everything at `i` and nearer the path's end. -/
theorem stream_push (x : X) (hnd : (p ++ i :: s).Nodup) :
    stream (p ++ i :: s) f = (stream (p ++ [i]) f) ++ stream s f ∧
      stream (p ++ i :: s) (Function.update f i (f i ++ [x]))
        = (stream (p ++ [i]) f) ++ (i, x) :: stream s f := by
  have hp : i ∉ p := fun h => (List.nodup_append.mp hnd).2.2 i h i (by simp) rfl
  have hs : i ∉ s := (List.nodup_cons.mp (List.nodup_append.mp hnd).2.1).1
  constructor
  · rw [← stream_append]
    simp
  · rw [stream_append, stream_cons, stream_append, stream_cons, stream_update_of_notMem _ _ hp,
      stream_update_of_notMem _ _ hs, Function.update_self]
    simp [stream]

/-- The first message at `i` has only messages nearer the path's end before it. -/
theorem stream_take {x : X} {rest : List X} (hnd : (p ++ i :: s).Nodup) (hx : f i = x :: rest) :
    stream (p ++ i :: s) f
        = stream p f ++ (i, x) :: ((rest.map fun y => (i, y)) ++ stream s f) ∧
      stream (p ++ i :: s) (Function.update f i rest)
        = stream p f ++ ((rest.map fun y => (i, y)) ++ stream s f) := by
  have hp : i ∉ p := fun h => (List.nodup_append.mp hnd).2.2 i h i (by simp) rfl
  have hs : i ∉ s := (List.nodup_cons.mp (List.nodup_append.mp hnd).2.1).1
  constructor
  · rw [stream_append, stream_cons, hx]
    rfl
  · rw [stream_append, stream_cons, stream_update_of_notMem _ _ hp,
      stream_update_of_notMem _ _ hs, Function.update_self]

/-- Passed on from `j` to the next node `i`, a message keeps its place. -/
theorem stream_hop {x : X} {rest : List X} (y : X) (hnd : (p ++ i :: j :: s).Nodup)
    (hx : f j = x :: rest) :
    stream (p ++ i :: j :: s) f
        = stream (p ++ [i]) f ++ (j, x) :: ((rest.map fun z => (j, z)) ++ stream s f) ∧
      stream (p ++ i :: j :: s) (Function.update (Function.update f j rest) i (f i ++ [y]))
        = stream (p ++ [i]) f ++ (i, y) :: ((rest.map fun z => (j, z)) ++ stream s f) := by
  have hij : i ≠ j := fun h =>
    (List.nodup_cons.mp (List.nodup_append.mp hnd).2.1).1 (h ▸ List.mem_cons_self)
  have hnd' : ((p ++ [i]) ++ j :: s).Nodup := by simpa using hnd
  obtain ⟨htake, htake'⟩ := stream_take f hnd' hx
  have hfi : Function.update f j rest i = f i := Function.update_of_ne hij _ _
  obtain ⟨hpush, hpush'⟩ := stream_push (Function.update f j rest) y hnd
  rw [hfi] at hpush'
  have hsplit : p ++ i :: j :: s = (p ++ [i]) ++ j :: s := by simp
  have hleft : stream (p ++ [i]) (Function.update f j rest) = stream (p ++ [i]) f := by
    refine stream_update_of_notMem f rest fun h => ?_
    exact (List.nodup_append.mp hnd').2.2 j h j (by simp) rfl
  refine ⟨by rw [hsplit, htake], ?_⟩
  rw [hsplit, htake', hleft] at hpush
  rw [hpush', hleft, ← List.append_cancel_left hpush]

end Mailboxes

end XMachine.Lib
