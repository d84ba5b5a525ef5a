import WasmExtensions.Machine.Basic

/-!
# Outboxes

An *outbox* collects entries into batches and delivers the batches in order.  An entry is pushed
onto the current batch; the current batch is packed and queued behind the packed ones; the first
packed batch is delivered.  Nothing else happens to an entry, so none is lost, duplicated or
overtaken: what was accepted is what was delivered, followed by what waits
(`Outbox.WellFormed.contents`).

If pushes stop at a limit and only non-empty batches are packed, every batch holds between one
entry and the limit.

How many deliveries an entry waits for never grows (`Outbox.Within`): later entries go behind it.
-/

namespace WasmExtensions

/-- Entries on their way through batches. -/
structure Outbox (α : Type*) where
  /-- All entries that were pushed. -/
  accepted : List α
  /-- The batches that were delivered, in order. -/
  delivered : List (List α)
  /-- The packed batches that wait for their delivery. -/
  batches : List (List α)
  /-- The batch that is being filled. -/
  current : List α

namespace Outbox

variable {α : Type*}

/-- What can happen to an outbox. -/
inductive Action (α : Type*) where
  | push (a : α)
  | pack
  | deliver

def empty : Outbox α := ⟨[], [], [], []⟩

def push (a : α) (o : Outbox α) : Outbox α :=
  { o with accepted := o.accepted ++ [a], current := o.current ++ [a] }

def pack (o : Outbox α) : Outbox α :=
  { o with batches := o.batches ++ [o.current], current := [] }

/-- Only a packed batch can be delivered. -/
def deliver (o : Outbox α) : Option (Outbox α) :=
  match o.batches with
  | [] => none
  | b :: bs => some { o with delivered := o.delivered ++ [b], batches := bs }

/-- Outboxes as a machine. -/
def machine (α : Type*) : Machine (Outbox α) (Action α) where
  next o
    | .push a => some (o.push a)
    | .pack => some o.pack
    | .deliver => o.deliver

/-- Pushes stop at the limit and only non-empty batches are packed. -/
def Allowed (limit : ℕ) (o : Outbox α) : Action α → Prop
  | .push _ => o.current.length < limit
  | .pack => o.current ≠ []
  | .deliver => True

/-- The batch is neither empty nor larger than the limit. -/
def Sized (limit : ℕ) (b : List α) : Prop := 1 ≤ b.length ∧ b.length ≤ limit

structure WellFormed (limit : ℕ) (o : Outbox α) : Prop where
  contents : o.delivered.flatten ++ o.batches.flatten ++ o.current = o.accepted
  current : o.current.length ≤ limit
  batches : ∀ b ∈ o.batches, Sized limit b
  delivered : ∀ b ∈ o.delivered, Sized limit b

variable {limit : ℕ} {o o' : Outbox α} {a : α}

theorem deliver_eq_some (h : o.deliver = some o') : ∃ b bs, o.batches = b :: bs ∧
    o' = { o with delivered := o.delivered ++ [b], batches := bs } := by
  unfold deliver at h
  split at h
  · cases h
  · rename_i b bs hbatches
    exact ⟨b, bs, hbatches, (Option.some.inj h).symm⟩

theorem deliver_of_cons {b : List α} {bs : List (List α)} (h : o.batches = b :: bs) :
    o.deliver = some { o with delivered := o.delivered ++ [b], batches := bs } := by
  unfold deliver
  rw [h]

theorem WellFormed.empty : WellFormed limit (empty : Outbox α) where
  contents := rfl
  current := Nat.zero_le _
  batches := by simp [Outbox.empty]
  delivered := by simp [Outbox.empty]

theorem WellFormed.push (h : o.WellFormed limit) (hlt : o.current.length < limit) :
    (o.push a).WellFormed limit where
  contents := by
    show o.delivered.flatten ++ o.batches.flatten ++ (o.current ++ [a]) = o.accepted ++ [a]
    rw [← List.append_assoc, h.contents]
  current := by
    show (o.current ++ [a]).length ≤ limit
    rw [List.length_append, List.length_singleton]
    exact hlt
  batches := h.batches
  delivered := h.delivered

theorem WellFormed.pack (h : o.WellFormed limit) (hne : o.current ≠ []) :
    o.pack.WellFormed limit where
  contents := by
    show o.delivered.flatten ++ (o.batches ++ [o.current]).flatten ++ [] = o.accepted
    rw [List.flatten_append, List.flatten_singleton, List.append_nil, ← List.append_assoc,
      h.contents]
  current := Nat.zero_le _
  batches := by
    intro b hb
    rcases List.mem_append.1 hb with hb | hb
    · exact h.batches b hb
    · rw [List.mem_singleton.1 hb]
      exact ⟨List.length_pos_iff.2 hne, h.current⟩
  delivered := h.delivered

theorem WellFormed.deliver (h : o.WellFormed limit) (hdeliver : o.deliver = some o') :
    o'.WellFormed limit := by
  obtain ⟨b, bs, hbatches, rfl⟩ := deliver_eq_some hdeliver
  have hsized := h.batches
  have hcontents := h.contents
  rw [hbatches] at hsized hcontents
  refine ⟨?_, h.current, fun b' hb' => hsized b' (List.mem_cons_of_mem _ hb'), fun b' hb' => ?_⟩
  · rw [List.flatten_append, List.flatten_singleton, ← hcontents, List.flatten_cons]
    simp only [List.append_assoc]
  · rcases List.mem_append.1 hb' with hb' | hb'
    · exact h.delivered b' hb'
    · rw [List.mem_singleton.1 hb']
      exact hsized b List.mem_cons_self

/-- **Nothing is lost, duplicated or overtaken** in any run of an outbox. -/
theorem WellFormed.reaches (hreaches : (machine α).Reaches (Allowed limit) o o')
    (h : o.WellFormed limit) : o'.WellFormed limit := by
  refine hreaches.invariant h fun s action s' hs hallowed hnext => ?_
  cases action with
  | push a => cases hnext; exact hs.push hallowed
  | pack => cases hnext; exact hs.pack hallowed
  | deliver => exact hs.deliver hnext

/-! ### How long an entry waits -/

/-- The first `m` entries are delivered after at most `n` more deliveries. -/
def Within (m n : ℕ) (o : Outbox α) : Prop :=
  m ≤ (o.delivered ++ (o.batches ++ [o.current]).take n).flatten.length

variable {m n : ℕ}

/-- Every entry is in one of the batches. -/
theorem WellFormed.within (h : o.WellFormed limit) :
    Within o.accepted.length (o.batches.length + 1) o := by
  unfold Within
  rw [List.take_of_length_le (by simp), ← h.contents]
  simp

theorem WellFormed.within_of_current_nil (h : o.WellFormed limit) (hnil : o.current = []) :
    Within o.accepted.length o.batches.length o := by
  unfold Within
  rw [List.take_append_of_le_length (Nat.le_refl _), List.take_length, ← h.contents, hnil]
  simp

theorem Within.push (h : Within m n o) : Within m n (o.push a) := by
  refine Nat.le_trans h ?_
  show _ ≤ (o.delivered ++ (o.batches ++ [o.current ++ [a]]).take n).flatten.length
  rcases Nat.lt_or_ge o.batches.length n with hn | hn
  · rw [List.take_of_length_le (by simp; omega), List.take_of_length_le (by simp; omega)]
    simp
  · -- the current batch is not among the next `n`
    have htake (b : List α) : (o.batches ++ [b]).take n = o.batches.take n :=
      List.take_append_of_le_length hn
    exact Nat.le_of_eq (congrArg (fun bs => (o.delivered ++ bs).flatten.length)
      ((htake o.current).trans (htake (o.current ++ [a])).symm))

theorem Within.pack (h : Within m n o) : Within m n o.pack := by
  refine Nat.le_trans h ?_
  show _ ≤ (o.delivered ++ (o.batches ++ [o.current] ++ [[]]).take n).flatten.length
  rw [@List.take_append _ (o.batches ++ [o.current])]
  simp

theorem Within.mono {n' : ℕ} (h : Within m n o) (hn : n ≤ n') : Within m n' o := by
  obtain ⟨k, rfl⟩ := Nat.exists_eq_add_of_le hn
  refine Nat.le_trans h ?_
  rw [List.take_add]
  simp

/-- Every delivery brings the entries closer. -/
theorem Within.deliver (h : Within m (n + 1) o) (hdeliver : o.deliver = some o') :
    Within m n o' := by
  obtain ⟨b, bs, hbatches, rfl⟩ := deliver_eq_some hdeliver
  refine Nat.le_trans h (Nat.le_of_eq ?_)
  rw [hbatches]
  simp

/-- So do several deliveries in a row. -/
theorem Within.deliver_take {k : ℕ} (h : Within m (n + 1) o) (hpos : 1 ≤ k)
    (hk : k ≤ o.batches.length) :
    Within m n
      { o with delivered := o.delivered ++ o.batches.take k, batches := o.batches.drop k } := by
  have hbatches : o.batches.take k ++ (o.batches.drop k ++ [o.current]).take n =
      (o.batches ++ [o.current]).take (k + n) := by
    rw [List.take_add, List.take_append_of_le_length hk, List.drop_append_of_le_length hk]
  unfold Within
  rw [List.append_assoc, hbatches]
  exact h.mono (Nat.add_comm k n ▸ Nat.add_le_add_left hpos n)

/-- **No run makes an entry wait for longer.** -/
theorem Within.reaches (h : Within m n o) (hreaches : (machine α).Reaches (Allowed limit) o o') :
    Within m n o' := by
  refine hreaches.invariant h fun s action s' hs _ hnext => ?_
  cases action with
  | push a => cases hnext; exact hs.push
  | pack => cases hnext; exact hs.pack
  | deliver => exact (hs.mono (Nat.le_succ n)).deliver hnext

theorem accepted_reaches (hreaches : (machine α).Reaches (Allowed limit) o o') :
    o.accepted <+: o'.accepted := by
  refine hreaches.invariant (I := fun s => o.accepted <+: s.accepted) List.prefix_rfl
    fun s action s' hs _ hnext => ?_
  cases action with
  | push a => cases hnext; exact hs.trans (List.prefix_append _ _)
  | pack => cases hnext; exact hs
  | deliver =>
    obtain ⟨b, bs, -, rfl⟩ := deliver_eq_some hnext
    exact hs

/-- An entry that waits for no delivery has been delivered. -/
theorem WellFormed.delivered_of_within (h : o.WellFormed limit) {l : List α}
    (hl : l <+: o.accepted) (hwithin : Within l.length 0 o) : l <+: o.delivered.flatten := by
  refine List.prefix_of_prefix_length_le hl ⟨o.batches.flatten ++ o.current, ?_⟩ ?_
  · rw [← List.append_assoc]
    exact h.contents
  · simpa [Within] using hwithin

end Outbox

end WasmExtensions
