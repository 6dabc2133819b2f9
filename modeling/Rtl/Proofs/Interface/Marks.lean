import Rtl.Proofs.Interface.Releases

namespace Rtl

namespace Claims

-- What a table becomes in a run of claims, releases and attempts, an attempt being a
-- run from its own mark that is rolled back to it. The lists are the ports claimed
-- and the ports released on the way, the latest first, those of attempts included.
inductive Became : Claims → List PortId → List PortId → Claims → Prop
  | start (claims : Claims) : Became claims [] [] claims
  | claim {before now next : Claims} {claimed released : List PortId} {port : PortId}
      {leaf : NodeId} (run : Became before claimed released now)
      (step : now.claim? port leaf = some next) : Became before (port :: claimed) released next
  | release {before now next : Claims} {claimed released : List PortId} {port : PortId}
      (run : Became before claimed released now) (step : now.release? port = some next) :
      Became before claimed (port :: released) next
  | attempt {before now tried next : Claims} {claimed released within without : List PortId}
      {undone : List (PortId × NodeId)} (run : Became before claimed released now)
      (inner : Became now within without tried)
      (back : tried.rollback? now.mark = some (undone, next)) :
      Became before (within ++ claimed) (without ++ released) next

-- How many entries of the log are lost when these ports are released.
def lost (claims : Claims) (released : List PortId) : Nat :=
  claims.log.countP (released.contains ·.1)

theorem length_log_releaseEach (claims : Claims) (released : List PortId) :
    (claims.releaseEach released).log.length + claims.lost released = claims.log.length := by
  have hlength := claims.log.length_eq_countP_add_countP (p := (released.contains ·.1))
  have hkept : claims.log.countP (·.1 ∉ released) =
      claims.log.countP fun entry => ¬ released.contains entry.1 = true := by
    apply List.countP_congr
    simp
  rw [log_releaseEach, ← List.countP_eq_length_filter, hkept, lost, hlength, add_comm]

-- Where a run stands. The entries made are on top of what is left of the old log, and
-- the ports without such an entry are as the mark left them, but free if they were
-- claimed or released since.
structure Stands (before : Claims) (claimed released : List PortId) (now : Claims)
    (made : List (PortId × NodeId)) : Prop where
  listing : now.listing = before.listing
  log : now.log = made ++ (before.releaseEach released).log
  mem_claimed : ∀ entry ∈ made, entry.1 ∈ claimed
  owner : ∀ port ∉ made.map (·.1), now.owner? port =
    if port ∈ claimed then none else (before.releaseEach released).owner? port

namespace Stands

variable {before now next : Claims} {claimed released : List PortId}
  {made : List (PortId × NodeId)}

theorem refl (claims : Claims) : Stands claims [] [] claims [] := by
  refine ⟨rfl, rfl, ?_, ?_⟩
  · simp
  · intro port _
    simp [releaseEach]

theorem claim (h : Stands before claimed released now made) (port : PortId) (leaf : NodeId) :
    Stands before (port :: claimed) released (now.claim port leaf) ((port, leaf) :: made) := by
  refine ⟨?_, ?_, ?_, ?_⟩
  · rw [listing_claim, h.listing]
  · exact congrArg (_ :: ·) h.log
  · intro entry hentry
    obtain rfl | hentry := List.mem_cons.mp hentry
    · exact List.mem_cons_self
    · exact List.mem_cons_of_mem _ (h.mem_claimed entry hentry)
  · intro other hother
    rw [List.map_cons, List.mem_cons, not_or] at hother
    have howner : (now.claim port leaf).owner? other = now.owner? other :=
      owner?_setOwner_of_ne (Ne.symm hother.1) (some leaf)
    rw [howner, h.owner other hother.2]
    simp only [List.mem_cons, hother.1, false_or]

theorem release (h : Stands before claimed released now made) (port : PortId) :
    Stands before claimed (port :: released) (now.release port)
      (made.filter (·.1 != port)) := by
  have hlog : (before.releaseEach (port :: released)).log =
      (before.releaseEach released).log.filter (·.1 != port) := by
    rw [log_releaseEach, log_releaseEach, List.filter_filter]
    apply List.filter_congr
    intro entry _
    by_cases he : entry.1 = port <;> simp [he]
  refine ⟨?_, ?_, ?_, ?_⟩
  · rw [listing_release, h.listing]
  · rw [log_release, h.log, List.filter_append, hlog]
  · exact fun entry hentry => h.mem_claimed entry (List.mem_of_mem_filter hentry)
  · intro other hother
    rw [owner?_release, owner?_releaseEach]
    by_cases he : other = port
    · simp [he]
    · have hnot : other ∉ made.map (·.1) := by
        intro hmem
        obtain ⟨entry, hentry, rfl⟩ := List.mem_map.mp hmem
        exact hother (List.mem_map_of_mem (List.mem_filter.mpr ⟨hentry, by simpa using he⟩))
      rw [if_neg he, h.owner other hnot, owner?_releaseEach]
      simp only [List.mem_cons, he, false_or]

-- A rollback to the mark gives up the newest entries, as many as the log is longer than
-- it was: for each entry of the old log that was lost, the oldest one made is left.
theorem since_eq (h : Stands before claimed released now made) :
    now.since before.mark = made.take (made.length - before.lost released) := by
  have hlength := before.length_log_releaseEach released
  have hcount : now.log.length - before.mark = made.length - before.lost released := by
    rw [h.log, List.length_append, mark]
    omega
  rw [since, hcount, h.log, List.take_append_of_le_length (by omega)]

theorem log_rollback (h : Stands before claimed released now made) :
    (now.rollback before.mark).log =
      made.drop (made.length - before.lost released) ++ (before.releaseEach released).log := by
  have hlength := before.length_log_releaseEach released
  have hcount : now.log.length - before.mark = made.length - before.lost released := by
    rw [h.log, List.length_append, mark]
    omega
  rw [Claims.log_rollback, hcount, h.log, List.drop_append_of_le_length (by omega)]

-- The mark still lies in the log if no more entries were lost than made.
theorem mark_le_iff (h : Stands before claimed released now made) :
    before.mark ≤ now.mark ↔ before.lost released ≤ made.length := by
  have hlength := before.length_log_releaseEach released
  rw [mark, mark, h.log, List.length_append]
  omega

-- A port that has no entry, or whose newest entry is undone, is free if it was claimed
-- since the mark.
theorem owner?_rollback (h : Stands before claimed released now made) {port : PortId}
    (hport : port ∈ (now.since before.mark).map (·.1) ∨ port ∉ made.map (·.1)) :
    (now.rollback before.mark).owner? port =
      if port ∈ claimed then none else (before.releaseEach released).owner? port := by
  rw [Claims.owner?_rollback]
  by_cases hundone : port ∈ (now.since before.mark).map (·.1)
  · obtain ⟨entry, hentry, rfl⟩ := List.mem_map.mp hundone
    rw [h.since_eq] at hentry
    rw [if_pos hundone, if_pos (h.mem_claimed entry (List.mem_of_mem_take hentry))]
  · rw [if_neg hundone, h.owner port (hport.resolve_left hundone)]

-- An attempt is a run of its own, and what it leaves is again as the earlier mark says.
theorem attempt {within without : List PortId} {tried : Claims}
    {later : List (PortId × NodeId)} (h : Stands before claimed released now made)
    (hlater : Stands now within without tried later) :
    Stands before (within ++ claimed) (without ++ released) (tried.rollback now.mark)
      (later.drop (later.length - now.lost without) ++ made.filter (·.1 ∉ without)) := by
  refine ⟨?_, ?_, ?_, ?_⟩
  · rw [listing_rollback, hlater.listing, h.listing]
  · rw [hlater.log_rollback, log_releaseEach, h.log, List.filter_append, log_releaseEach,
      log_releaseEach, List.filter_filter, List.append_assoc]
    congr 2
    apply List.filter_congr
    intro entry _
    simp
  · intro entry hentry
    obtain hentry | hentry := List.mem_append.mp hentry
    · exact List.mem_append_left _ (hlater.mem_claimed entry (List.mem_of_mem_drop hentry))
    · exact List.mem_append_right _ (h.mem_claimed entry (List.mem_of_mem_filter hentry))
  · intro port hport
    rw [List.map_append, List.mem_append, not_or] at hport
    have hclear : port ∈ (tried.since now.mark).map (·.1) ∨ port ∉ later.map (·.1) := by
      by_contra hneither
      rw [not_or, not_not, hlater.since_eq] at hneither
      obtain ⟨hundone, hmem⟩ := hneither
      rw [← List.take_append_drop (later.length - now.lost without) later, List.map_append,
        List.mem_append] at hmem
      exact hmem.elim hundone hport.1
    rw [hlater.owner?_rollback hclear, owner?_releaseEach, owner?_releaseEach]
    by_cases hwithin : port ∈ within
    · simp [hwithin]
    · by_cases hwithout : port ∈ without
      · simp [hwithin, hwithout]
      · have hmade : port ∉ made.map (·.1) := by
          intro hmem
          obtain ⟨entry, hentry, rfl⟩ := List.mem_map.mp hmem
          exact hport.2
            (List.mem_map_of_mem (List.mem_filter.mpr ⟨hentry, by simpa using hwithout⟩))
        rw [h.owner port hmade, owner?_releaseEach]
        simp [hwithin, hwithout]

end Stands

variable {before now : Claims} {claimed released : List PortId}

theorem Became.stands (run : Became before claimed released now) :
    ∃ made, Stands before claimed released now made := by
  induction run with
  | start claims => exact ⟨[], .refl claims⟩
  | claim run step ih =>
      obtain ⟨made, h⟩ := ih
      obtain ⟨-, hnext⟩ := Option.ite_none_right_eq_some.mp step
      obtain rfl := Option.some.inj hnext
      exact ⟨_, h.claim _ _⟩
  | release run step ih =>
      obtain ⟨made, h⟩ := ih
      obtain ⟨-, hnext⟩ := Option.ite_none_right_eq_some.mp step
      obtain rfl := Option.some.inj hnext
      exact ⟨_, h.release _⟩
  | attempt run inner back ih ihin =>
      obtain ⟨made, h⟩ := ih
      obtain ⟨later, hlater⟩ := ihin
      obtain ⟨-, -, rfl⟩ := rollback?_eq_some_iff.mp back
      exact ⟨_, h.attempt hlater⟩

theorem lost_eq_zero_iff {claims : Claims} :
    claims.lost released = 0 ↔ ∀ port ∈ released, port ∉ claims.log.map (·.1) := by
  rw [lost, List.countP_eq_zero]
  constructor
  · intro h port hport hmem
    obtain ⟨entry, hentry, rfl⟩ := List.mem_map.mp hmem
    exact h entry hentry (by simpa using hport)
  · intro h entry hentry hport
    exact h entry.1 (by simpa using hport) (List.mem_map_of_mem hentry)

-- What was claimed since the mark and is free now is as it should be if it was free at
-- the mark or was released since.
theorem if_claimed_eq_iff {port : PortId} :
    (if port ∈ claimed then none else (before.releaseEach released).owner? port) =
        (before.releaseEach released).owner? port ↔
      (port ∈ claimed → port ∈ released ∨ before.owner? port = none) := by
  rw [owner?_releaseEach]
  by_cases hclaimed : port ∈ claimed
  · by_cases hreleased : port ∈ released
    · simp [hreleased]
    · simp [hclaimed, hreleased, eq_comm]
  · simp [hclaimed]

namespace Stands

variable {made : List (PortId × NodeId)}

-- The rollback undoes the claims and nothing else exactly if no old entry was lost and no
-- port was claimed that the mark found held and nobody released since.
theorem rollback_eq_iff (h : Stands before claimed released now made)
    (hmark : before.mark ≤ now.mark) :
    now.rollback before.mark = before.releaseEach released ↔
      (∀ port ∈ released, port ∉ before.log.map (·.1)) ∧
        ∀ port ∈ claimed, port ∈ released ∨ before.owner? port = none := by
  rw [← lost_eq_zero_iff]
  constructor
  · intro hback
    have hle := h.mark_le_iff.mp hmark
    have hlength := congrArg (·.log.length) hback
    simp only [h.log_rollback, List.length_append, List.length_drop] at hlength
    have hlost : before.lost released = 0 := by omega
    have hsince := h.since_eq
    rw [hlost, Nat.sub_zero, List.take_length] at hsince
    refine ⟨hlost, fun port => if_claimed_eq_iff.mp ?_⟩
    rw [← h.owner?_rollback (hsince ▸ em _), hback]
  · rintro ⟨hlost, hclaimed⟩
    have hsince := h.since_eq
    rw [hlost, Nat.sub_zero, List.take_length] at hsince
    refine eq_of_listing ?_ ?_ ?_
    · rw [listing_rollback, h.listing, listing_releaseEach]
    · intro port
      rw [h.owner?_rollback (hsince ▸ em _)]
      exact if_claimed_eq_iff.mpr (hclaimed port)
    · rw [h.log_rollback, hlost, Nat.sub_zero, List.drop_length, List.nil_append]

end Stands

-- What a rollback to the mark does after a run. It fails if more entries of the old log
-- were lost than new ones are left. Else it undoes the newest entries, but as many of
-- the oldest ones stand as old ones were lost. A port that none of these is for comes
-- out as it was at the mark, free if released since, unless it was claimed over its
-- owner: then it has lost it.
theorem rollback?_of_became (run : Became before claimed released now) :
    ∃ made, now.log = made ++ (before.releaseEach released).log ∧
      (∀ entry ∈ made, entry.1 ∈ claimed) ∧
      ((now.rollback? before.mark).isSome ↔ before.lost released ≤ made.length) ∧
      ∀ undone last, now.rollback? before.mark = some (undone, last) →
        undone = made.take (made.length - before.lost released) ∧
        last.log =
          made.drop (made.length - before.lost released) ++ (before.releaseEach released).log ∧
        (∀ port, port ∈ undone.map (·.1) ∨ port ∉ made.map (·.1) →
          (last.owner? port = (before.releaseEach released).owner? port ↔
            (port ∈ claimed → port ∈ released ∨ before.owner? port = none))) ∧
        (∀ port ∉ undone.map (·.1), last.owner? port = now.owner? port) ∧
        (last = before.releaseEach released ↔
          (∀ port ∈ released, port ∉ before.log.map (·.1)) ∧
            ∀ port ∈ claimed, port ∈ released ∨ before.owner? port = none) := by
  obtain ⟨made, h⟩ := run.stands
  refine ⟨made, h.log, h.mem_claimed, ?_, ?_⟩
  · rw [← h.mark_le_iff, rollback?]
    split
    · rename_i hmark
      simp [hmark]
    · rename_i hmark
      simp [hmark]
  · intro undone last hback
    obtain ⟨hmark, rfl, rfl⟩ := rollback?_eq_some_iff.mp hback
    refine ⟨h.since_eq, h.log_rollback, ?_, ?_, h.rollback_eq_iff hmark⟩
    · intro port hport
      rw [h.owner?_rollback hport]
      exact if_claimed_eq_iff
    · intro port hport
      rw [owner?_rollback, if_neg hport]

-- Three ports, the first of them held.
def heldFirst : Claims :=
  (ofPorts [("a", .input), ("b", .input), ("c", .output)]).claim ⟨0⟩ ⟨5⟩

-- Two claims, the second of them in an attempt; then the first port is released and
-- claimed again.
def heldAgain : Claims :=
  (((heldFirst.claim ⟨1⟩ ⟨6⟩).claim ⟨2⟩ ⟨7⟩).rollback 2 |>.release ⟨1⟩).claim ⟨1⟩ ⟨8⟩

theorem rollback?_heldAgain :
    Became heldFirst [⟨1⟩, ⟨2⟩, ⟨1⟩] [⟨1⟩] heldAgain ∧
      heldAgain.rollback? heldFirst.mark =
        some ([(⟨1⟩, ⟨8⟩)], heldFirst.releaseEach [⟨1⟩]) := by
  have hinner : Became (heldFirst.claim ⟨1⟩ ⟨6⟩) [⟨2⟩] []
      ((heldFirst.claim ⟨1⟩ ⟨6⟩).claim ⟨2⟩ ⟨7⟩) := .claim (.start _) rfl
  have hrun : Became heldFirst [⟨1⟩, ⟨2⟩, ⟨1⟩] [⟨1⟩] heldAgain :=
    .claim (.release (.attempt (.claim (.start _) rfl) hinner rfl) rfl) rfl
  obtain ⟨made, -, -, -, hback⟩ := rollback?_of_became hrun
  have hsome : heldAgain.rollback? heldFirst.mark =
      some ([(⟨1⟩, ⟨8⟩)], heldAgain.rollback heldFirst.mark) := rfl
  obtain ⟨-, -, -, -, hexact⟩ := hback _ _ hsome
  refine ⟨hrun, hsome.trans ?_⟩
  rw [hexact.mpr (by decide)]

-- A released port makes the log shorter than the mark, or leaves a later claim standing,
-- and a port claimed over its owner has none in the end.
theorem rollback?_of_released_and_reclaimed :
    let alone := (ofPorts [("a", .input)]).claim ⟨0⟩ ⟨5⟩
    let beside := (ofPorts [("a", .input), ("b", .input)]).claim ⟨0⟩ ⟨5⟩
    let moved := (beside.release ⟨0⟩).claim ⟨1⟩ ⟨6⟩
    let taken := alone.claim ⟨0⟩ ⟨6⟩
    (Became alone [] [⟨0⟩] (alone.release ⟨0⟩) ∧
        (alone.release ⟨0⟩).rollback? alone.mark = none) ∧
      (Became beside [⟨1⟩] [⟨0⟩] moved ∧
        (moved.rollback? beside.mark).map (fun back => (back.1, back.2.owners)) =
          some ([], [none, some ⟨6⟩])) ∧
      (Became alone [⟨0⟩] [] taken ∧ alone.owner? ⟨0⟩ = some ⟨5⟩ ∧
        (taken.rollback? alone.mark).map (·.2.owners) = some [none]) := by
  refine ⟨⟨?_, by decide⟩, ⟨?_, by decide⟩, ?_, by decide, by decide⟩
  · exact .release (.start _) rfl
  · exact .claim (.release (.start _) rfl) rfl
  · exact .claim (.start _) rfl

end Claims

end Rtl
