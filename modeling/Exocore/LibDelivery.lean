import Mathlib.Tactic

/-! What is seen at the end of a lossy channel, where marks stand for the losses. -/
namespace Delivery

variable {E : Type}

/-- An event that went through, the events lost since the one before it, and the marks that stand
for these. -/
structure Passed (E : Type) where
  lost : List E
  marks : ℕ
  event : E

def Passed.sent (p : Passed E) : List E := p.lost ++ [p.event]

/-- A mark is seen as no event. -/
def Passed.seen (p : Passed E) : List (Option E) := List.replicate p.marks none ++ [some p.event]

/-- The events that were sent and what was seen of them, with the losses and the marks since the
last event that went through. There is a mark in front of an event exactly where something was lost
before it. -/
def AccountsTo (sent : List E) (seen : List (Option E)) (lost : List E) (marks : ℕ) : Prop :=
  ∃ passed : List (Passed E), (∀ p ∈ passed, p.marks = 0 ↔ p.lost = []) ∧
    sent = passed.flatMap Passed.sent ++ lost ∧
    seen = passed.flatMap Passed.seen ++ List.replicate marks none

/-- Losses at the end may have no mark yet. -/
def Accounts (sent : List E) (seen : List (Option E)) : Prop :=
  ∃ lost marks, AccountsTo sent seen lost marks ∧ (lost = [] → marks = 0)

theorem accountsTo_nil : AccountsTo ([] : List E) [] [] 0 := ⟨[], by simp, rfl, rfl⟩

theorem accounts_nil : Accounts ([] : List E) [] := ⟨[], 0, accountsTo_nil, fun _ => rfl⟩

section Steps
variable {sent : List E} {seen : List (Option E)} {lost : List E} {marks : ℕ}
  (h : AccountsTo sent seen lost marks)
include h

/-- One more event, that goes through. -/
theorem AccountsTo.pass (hmarks : marks = 0 ↔ lost = []) (e : E) :
    AccountsTo (sent ++ [e]) (seen ++ [some e]) [] 0 := by
  obtain ⟨passed, hpassed, hsent, hseen⟩ := h
  refine ⟨passed ++ [⟨lost, marks, e⟩], ?_, ?_, ?_⟩
  · intro p hp
    rcases List.mem_append.mp hp with hp | hp
    · exact hpassed p hp
    · rw [List.mem_singleton.mp hp]
      exact hmarks
  · rw [hsent]
    simp [Passed.sent]
  · rw [hseen]
    simp [Passed.seen]

/-- One more event, that is lost. -/
theorem AccountsTo.lose (e : E) : AccountsTo (sent ++ [e]) seen (lost ++ [e]) marks := by
  obtain ⟨passed, hpassed, hsent, hseen⟩ := h
  refine ⟨passed, hpassed, ?_, hseen⟩
  rw [hsent, List.append_assoc]

theorem AccountsTo.mark : AccountsTo sent (seen ++ [none]) lost (marks + 1) := by
  obtain ⟨passed, hpassed, hsent, hseen⟩ := h
  refine ⟨passed, hpassed, hsent, ?_⟩
  rw [hseen, List.append_assoc, List.replicate_succ']

end Steps

/-- The part that starts with an event that went through. -/
theorem AccountsTo.cons {sent : List E} {seen : List (Option E)} {lost : List E} {marks : ℕ}
    (h : AccountsTo sent seen lost marks) (p : Passed E) (hp : p.marks = 0 ↔ p.lost = []) :
    AccountsTo (p.sent ++ sent) (p.seen ++ seen) lost marks := by
  obtain ⟨passed, hpassed, hsent, hseen⟩ := h
  refine ⟨p :: passed, ?_, ?_, ?_⟩
  · intro q hq
    rcases List.mem_cons.mp hq with rfl | hq
    · exact hp
    · exact hpassed q hq
  · rw [hsent, List.flatMap_cons, List.append_assoc]
  · rw [hseen, List.flatMap_cons, List.append_assoc]

/-- Marks alone account for losses alone. -/
theorem accounts_marks (lost : List E) (marks : ℕ) (h : lost = [] → marks = 0) :
    Accounts lost (List.replicate marks none) :=
  ⟨lost, marks, ⟨[], by simp, rfl, rfl⟩, h⟩

/-- The first marks account for the losses, once there is one. -/
theorem accounts_first_marks (lost : List E) (marks : ℕ) (h : lost = [] → marks = 0)
    (seen : List (Option E)) (hseen : seen <+: List.replicate marks none) :
    ∃ sent, sent <+: lost ∧ Accounts sent seen := by
  obtain ⟨hle, heq⟩ := List.prefix_replicate_iff.mp hseen
  by_cases hnil : seen = []
  · exact ⟨[], List.nil_prefix, hnil ▸ accounts_nil⟩
  · refine ⟨lost, List.prefix_rfl, ?_⟩
    rw [heq]
    apply accounts_marks
    intro hlost
    have hlength := List.length_pos_iff.mpr hnil
    have hzero := h hlost
    omega

/-- What was seen up to some point accounts for what was sent up to some point. -/
theorem Accounts.of_prefix {sent : List E} {seen : List (Option E)} (h : Accounts sent seen)
    (before : List (Option E)) (hbefore : before <+: seen) :
    ∃ told, told <+: sent ∧ Accounts told before := by
  obtain ⟨lost, marks, ⟨passed, hpassed, rfl, rfl⟩, hlost⟩ := h
  induction passed generalizing before with
  | nil => exact accounts_first_marks lost marks hlost before hbefore
  | cons p rest ih =>
    have hp := hpassed p List.mem_cons_self
    rw [List.flatMap_cons, List.append_assoc] at hbefore ⊢
    -- the point is inside the first part, or behind it
    rcases List.prefix_or_prefix_of_prefix hbefore (List.prefix_append p.seen _) with
      hshort | ⟨later, rfl⟩
    · rcases List.prefix_concat_iff.mp hshort with hall | hmarks
      · refine ⟨p.sent, List.prefix_append _ _, [], 0, ?_, fun _ => rfl⟩
        have hcons := accountsTo_nil.cons p hp
        rw [List.append_nil, List.append_nil] at hcons
        rw [hall]
        exact hcons
      · obtain ⟨told, htold, haccounts⟩ := accounts_first_marks p.lost p.marks hp.mpr before hmarks
        refine ⟨told, ?_, haccounts⟩
        rw [Passed.sent, List.append_assoc]
        exact htold.trans (List.prefix_append _ _)
    · have hlater := (List.prefix_append_right_inj _).mp hbefore
      obtain ⟨told, htold, lost', marks', haccounts, hlost'⟩ :=
        ih later (fun q hq => hpassed q (List.mem_cons_of_mem p hq)) hlater
      exact ⟨p.sent ++ told, (List.prefix_append_right_inj _).mpr htold, lost', marks',
        haccounts.cons p hp, hlost'⟩

/-- No event is seen twice or out of order. -/
theorem Accounts.sublist {sent : List E} {seen : List (Option E)} (h : Accounts sent seen) :
    (seen.filterMap id).Sublist sent := by
  obtain ⟨lost, marks, ⟨passed, -, rfl, rfl⟩, -⟩ := h
  have hmarks (n : ℕ) : (List.replicate n (none : Option E)).filterMap id = [] := by
    rw [List.filterMap_replicate_of_none rfl]
  rw [List.filterMap_append, hmarks, List.append_nil]
  apply List.Sublist.trans _ (List.sublist_append_left _ _)
  induction passed with
  | nil => exact List.nil_sublist _
  | cons p rest ih =>
    rw [List.flatMap_cons, List.flatMap_cons, List.filterMap_append]
    refine List.Sublist.append ?_ ih
    rw [Passed.seen, List.filterMap_append, hmarks]
    exact List.sublist_append_right _ _

end Delivery
