-- SUMMARY: The loops of `list.h`: every entry is visited once and in order, also when entries are deleted on the way.
import LinuxOta.Base.Loop
import LinuxOta.Test.List

namespace LinuxOta.ListHead

/-! # Walking a list

An entry is named by the node in it. The result of a loop that follows a null pointer is
`none`. The macros that walk backwards call `list_prev_entry`, which the header lacks. -/

variable {A : Type} [DecidableEq A]

/-- A turn of `list_for_each_entry`: `pos`, and the entries visited. -/
def forEachTurn (h : Links A) (head : Option A) : Option A × List A → (Option A × List A) ⊕ Option (List A)
  | (pos, seen) =>
    if pos = head then .inr (some seen)
    else match pos with
      | none => .inr none
      | some a => .inl (h.next a, seen ++ [a])

/-- The variables of `list_for_each_entry_safe`, the links, and the entries visited. -/
structure SafeWalk (A : Type) where
  pos : Option A
  n : Option A
  links : Links A
  seen : List A

section
variable (head : Option A) (body : A → Links A → Option (Links A))

/-- A turn of `list_for_each_entry_safe`. -/
def forEachSafeTurn (s : SafeWalk A) : SafeWalk A ⊕ Option (Links A × List A) :=
  if s.pos = head then .inr (some (s.links, s.seen))
  else match s.pos with
    | none => .inr none
    | some a =>
      match body a s.links with
      | none => .inr none
      | some h =>
        match loadNext s.n h with
        | none => .inr none
        | some n => .inl ⟨s.n, n, h, s.seen ++ [a]⟩

/-- `list_for_each_entry_safe`: how it ends on the links `h`. -/
def ForEachSafe (h : Links A) (r : Option (Links A × List A)) : Prop :=
  ∃ pos n, loadNext head h = some pos ∧ loadNext pos h = some n ∧
    Loop.Ends (forEachSafeTurn head body) ⟨pos, n, h, []⟩ r

end

variable {h : Links A} {a : A} {xs : List A} {W : Multiset (List A)}

omit [DecidableEq A] in
/-- What follows a node of a ring. -/
theorem next_of_pool {b : A} {ys : List A} (hpool : h.Pool ((a :: xs ++ b :: ys) ::ₘ W)) :
    h.next b = (ys ++ [a]).head? := by
  have hring : h.IsRing (b :: ys ++ a :: xs) := (Links.isRing_append_comm (a :: xs) (b :: ys)).mp hpool.head.1
  cases ys with
  | nil => exact hring.1.1
  | cons y ys => exact hring.1.1

omit [DecidableEq A] in
theorem next_head_of_pool (hpool : h.Pool ((a :: xs) ::ₘ W)) : h.next a = (xs ++ [a]).head? := by
  have hring : h.Path a xs a := hpool.head.1
  cases xs with
  | nil => exact hring.1
  | cons x xs => exact hring.1.1

/-- The walk over the entries `ys` that are left. -/
theorem forEach_rest (seen ys : List A) (hpool : h.Pool ((a :: seen ++ ys) ::ₘ W)) :
    Loop.Ends (forEachTurn h (some a)) ((ys ++ [a]).head?, seen) (some (seen ++ ys)) := by
  induction ys generalizing seen with
  | nil =>
    rw [List.append_nil]
    exact .stop (if_pos rfl)
  | cons y ys ih =>
    have hne : y ≠ a := by
      rintro rfl
      have hnodup := hpool.head.2
      simp at hnodup
    have hturn : forEachTurn h (some a) (some y, seen) = .inl (h.next y, seen ++ [y]) :=
      if_neg fun heq => hne (Option.some.inj heq)
    refine .next hturn ?_
    rw [next_of_pool hpool, List.append_cons seen y ys]
    exact ih (seen ++ [y]) (by simpa using hpool)

/-- `list_for_each_entry` visits the entries of the list, in their order, and ends. -/
theorem forEach_pool (hpool : h.Pool ((a :: xs) ::ₘ W)) :
    Loop.Ends (forEachTurn h (some a)) (h.next a, []) (some xs) := by
  rw [next_head_of_pool hpool]
  exact forEach_rest [] xs hpool

/-- What is done for an entry takes it out of its list if `P` holds of it, and nothing else. -/
structure Deletes (P : A → Bool) (body : A → Links A → Option (Links A)) : Prop where
  deletes : ∀ {h : Links A} {e : A} {xs ys : List A} {W : Multiset (List A)}, P e = true →
    h.Pool ((xs ++ e :: ys) ::ₘ W) → ∃ h', body e h = some h' ∧ h'.Pool ((xs ++ ys) ::ₘ W)
  keeps : ∀ {h : Links A} {e : A}, P e = false → body e h = some h

theorem deletes_listDel (P : A → Bool) : Deletes P fun e h => if P e then listDel (some e) h else some h where
  deletes hP hpool := by
    obtain ⟨h', heq, hpool', -⟩ := listDel_pool hpool
    exact ⟨h', (if_pos hP).trans heq, hpool'⟩
  keeps hP := if_neg (by simp [hP])

theorem deletes_listDelInit (P : A → Bool) :
    Deletes P fun e h => if P e then listDelInit (some e) h else some h where
  deletes hP hpool := by
    obtain ⟨h', heq, hpool'⟩ := listDelInit_pool hpool
    exact ⟨h', (if_pos hP).trans heq, hpool'.tail⟩
  keeps hP := if_neg (by simp [hP])

variable {P : A → Bool} {body : A → Links A → Option (Links A)}

omit [DecidableEq A] in
/-- What is done for one entry leaves the list without it, or as it is. -/
theorem Deletes.step (hbody : Deletes P body) {e : A} {kept ys : List A}
    (hpool : h.Pool ((a :: kept ++ e :: ys) ::ₘ W)) :
    ∃ h', body e h = some h' ∧
      h'.Pool ((a :: (kept ++ [e].filter fun e => !P e) ++ ys) ::ₘ W) := by
  cases hP : P e with
  | true =>
    obtain ⟨h', heq, hpool'⟩ := hbody.deletes hP hpool
    refine ⟨h', heq, ?_⟩
    simpa [hP] using hpool'
  | false =>
    refine ⟨h, hbody.keeps hP, ?_⟩
    simpa [hP] using hpool

omit [DecidableEq A] in
theorem exists_head (xs : List A) (a : A) : ∃ b, (xs ++ [a]).head? = some b := by
  cases xs with
  | nil => exact ⟨a, rfl⟩
  | cons x xs => exact ⟨x, rfl⟩

/-- The walk over the entries `ys` that are left: `n` is one ahead of `pos`, so that the entry at
`pos` may go. -/
theorem forEachSafe_rest (hbody : Deletes P body) (kept seen ys : List A) {n : Option A}
    (hpool : h.Pool ((a :: kept ++ ys) ::ₘ W)) (hn : ∀ y ys', ys = y :: ys' → n = (ys' ++ [a]).head?) :
    ∃ h', Loop.Ends (forEachSafeTurn (some a) body) ⟨(ys ++ [a]).head?, n, h, seen⟩
        (some (h', seen ++ ys)) ∧
      h'.Pool ((a :: kept ++ ys.filter fun e => !P e) ::ₘ W) := by
  induction ys generalizing h kept seen n with
  | nil =>
    refine ⟨h, ?_, hpool⟩
    rw [List.append_nil]
    exact .stop (if_pos rfl)
  | cons y ys ih =>
    have hne : y ≠ a := by
      rintro rfl
      have hnodup := hpool.head.2
      simp at hnodup
    obtain rfl := hn y ys rfl
    obtain ⟨h₁, hdone, hpool₁⟩ := hbody.step hpool
    obtain ⟨b, hb⟩ := exists_head ys a
    have hturn : forEachSafeTurn (some a) body ⟨some y, (ys ++ [a]).head?, h, seen⟩ =
        .inl ⟨(ys ++ [a]).head?, h₁.next b, h₁, seen ++ [y]⟩ := by
      simp only [forEachSafeTurn, Option.some.injEq, hne, ↓reduceIte, hdone, hb, loadNext, Option.map_some]
    have hn' : ∀ z zs, ys = z :: zs → h₁.next b = (zs ++ [a]).head? := by
      rintro z zs rfl
      obtain rfl := Option.some.inj hb
      exact next_of_pool hpool₁
    obtain ⟨h', hends, hpool'⟩ := ih (kept ++ [y].filter fun e => !P e) (seen ++ [y]) hpool₁ hn'
    refine ⟨h', .next hturn ?_, ?_⟩
    · rwa [List.append_cons seen y ys]
    · rw [List.cons_append, List.append_assoc, ← List.filter_append] at hpool'
      exact hpool'

/-- `list_for_each_entry_safe` visits every entry once and in order, ends, and leaves the entries
that were not deleted, in their order, and the other lists. -/
theorem forEachSafe_pool (hbody : Deletes P body) (hpool : h.Pool ((a :: xs) ::ₘ W)) :
    ∃ h', ForEachSafe (some a) body h (some (h', xs)) ∧
      h'.Pool ((a :: xs.filter fun e => !P e) ::ₘ W) := by
  have hfirst : loadNext (some a) h = some (xs ++ [a]).head? := congrArg some (next_head_of_pool hpool)
  obtain ⟨b, hb⟩ := exists_head xs a
  have hn : ∀ y ys, xs = y :: ys → h.next b = (ys ++ [a]).head? := by
    rintro y ys rfl
    obtain rfl := Option.some.inj hb
    have hpool₁ : h.Pool ((a :: [] ++ y :: ys) ::ₘ W) := hpool
    exact next_of_pool hpool₁
  obtain ⟨h', hends, hpool'⟩ := forEachSafe_rest hbody [] [] xs hpool hn
  exact ⟨h', ⟨_, h.next b, hfirst, by rw [hb]; rfl, hends⟩, hpool'⟩

/-- A list of two entries. -/
def twoEntries : Links Nat := ⟨fun a => some ((a + 1) % 3), fun a => some ((a + 2) % 3)⟩

theorem pool_twoEntries : twoEntries.Pool ([0, 1, 2] ::ₘ 0) where
  rings l hl := by
    obtain rfl : l = [0, 1, 2] := by simpa using hl
    exact ⟨⟨rfl, rfl⟩, ⟨rfl, rfl⟩, rfl, rfl⟩
  nodup := by
    rw [Links.nodes_cons, Links.nodes_zero, add_zero]
    decide

/-- The entry 1 is deleted on the way. -/
theorem forEachSafe_twoEntries : ∃ h', ForEachSafe (some 0)
      (fun e h => if (e == 1) = true then listDel (some e) h else some h) twoEntries (some (h', [1, 2])) ∧
    h'.Pool ([0, 2] ::ₘ 0) :=
  forEachSafe_pool (deletes_listDel (· == 1)) pool_twoEntries

end LinuxOta.ListHead
