import MiRelay.Exit.Agreement

/-!
# Completion of an exit

A client records completion only on an answer that carries every flag, and every
flag stands for a finished party. Of the three flags each belongs to one role.
-/

namespace MiRelay

namespace Parties

variable {maxFileSize : Nat} {id : String} {s t u : Parties} {l : List ExitStep}

/-- One step keeps everything backed. -/
theorem Sound.perform {a : ExitStep} (h : Sound id s) (ht : s.perform maxFileSize id a = some t) :
    Advanced id s t ∧ Sound id t := by
  rw [Parties.perform, Option.or_eq_some_iff, Option.or_eq_some_iff] at ht
  rcases ht with hrelay | ⟨-, hlinux | ⟨-, handroid⟩⟩
  · exact h.performRelay hrelay
  · exact h.performLinux hlinux
  · exact h.performAndroid handroid

/-- Before the first step nothing has been said. -/
theorem Sound.initial : Sound id .initial where
  relay := by
    have hnone : ∀ e, exitOf id .initial ≠ some e := fun e he => by cases he
    exact ⟨fun e he => absurd he (hnone e), fun e _ he => absurd he (hnone e),
      fun e he => absurd he (hnone e)⟩
  dispatches _ hd := absurd hd List.not_mem_nil
  replies _ hr := absurd hr List.not_mem_nil
  sent _ hq := absurd hq List.not_mem_nil
  linux := by
    refine ⟨?_, fun _ hr => absurd hr List.not_mem_nil, ?_, ?_, ?_, ?_⟩
    · exact fun hop => absurd hop.symm (Option.some_ne_none _)
    · exact fun _ hop => absurd hop.symm (Option.some_ne_none _)
    · exact fun _ hop => absurd hop.symm (Option.some_ne_none _)
    · exact fun hcleaned => absurd hcleaned Bool.false_ne_true
    · exact fun hexited => by cases hexited
  android _ := by
    refine ⟨?_, ?_, ?_, ?_⟩
    · exact fun hstage => by cases hstage
    · exact fun hstage => by cases hstage
    · exact fun hcleaned => absurd hcleaned Bool.false_ne_true
    · exact fun hcomplete => by cases hcomplete

/-- Along every run everything stays backed and nothing is taken back. -/
theorem Sound.run (h : Sound id s)
    (hrun : Steps (Parties.perform maxFileSize id) (fun _ _ => True) s l t) :
    Advanced id s t ∧ Sound id t := by
  refine hrun.invariant (I := fun _ t => Advanced id s t ∧ Sound id t) ⟨.refl s, h⟩ ?_
  rintro - t a u ⟨hadv, hsound⟩ - hu
  obtain ⟨hadv', hsound'⟩ := hsound.perform hu
  exact ⟨hadv.trans hadv', hsound'⟩

/-- The Linux client or one of the Android clients has recorded the exit as complete. -/
def Completed (s : Parties) : Prop :=
  s.linux.connectionState = .exited ∨ ∃ h, (s.android h).exitPhase = .complete

theorem Sound.allDone (h : Sound id s) (hcompleted : s.Completed) : AllDone id s := by
  rcases hcompleted with hexited | ⟨x, hcomplete⟩
  · exact h.linux.exited hexited
  · exact (h.android x).complete hcomplete

/-! ### Who sets which flag -/

theorem Sound.completed (hs : Sound id s) (hadv : Advanced id s t) (ht : Sound id t)
    (hcompleted : t.Completed) : (∃ e, t.exitOf id = some e ∧ e.serverCleaned = true) ∧
    t.linux.Finished ∧ ∀ e row, s.exitOf id = some e → s.folderOf id = some row →
      ∀ sender, row.senderHash = some sender → (t.android sender).Finished := by
  obtain ⟨e, he, hserver, hsender, hreceiver⟩ := ht.allDone hcompleted
  refine ⟨⟨e, he, hserver⟩, ht.relay.receiver e he hreceiver, fun e₀ row he₀ hrow x hx => ?_⟩
  obtain ⟨row₀, hrow₀, hclosed⟩ := hs.relay.folder e₀ he₀
  have hsame : row₀ = row := Option.some.inj (hrow₀.symm.trans hrow)
  subst hsame
  obtain ⟨row', hrow', hlater⟩ := hadv.folder row₀ hrow₀
  refine ht.relay.sender e row' he hrow' hsender x ?_
  rw [(hlater.disconnected hclosed).2, hx]

/-- A step that no other party takes is one of the relay. -/
theorem perform_receipt {d : Dispatch} (h : s.perform maxFileSize id (.receipt d) = some t) :
    s.performRelay maxFileSize id (.receipt d) = some t := by
  rw [perform, Option.or_eq_some_iff, Option.or_eq_some_iff] at h
  rcases h with hrelay | ⟨-, hlinux | ⟨-, handroid⟩⟩
  · exact hrelay
  · contradiction
  · contradiction

end Parties

end MiRelay
