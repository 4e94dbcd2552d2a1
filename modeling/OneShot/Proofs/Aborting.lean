import OneShot.Proofs.Dormancy

/-!
# Abort ends the handling at any depth

An entry that aborts ends the loop in the drive in which the entry and its computation have
finished. The end is passed on by everything around the loop. The source is left where it waits.
-/

namespace OneShot

open Protocol Exec

/-- When the entry of an action and the computation that it returned have finished, the loop looks
at the token of the action as it is then. If that has recorded an abort, the handling and everything
around it complete with its value in the same drive, with nothing done in between. No later drive
does anything. A source that nothing but the loop drives still waits where it has yielded the
action. -/
theorem abort_ends_stack {L : Language} {S : Type}
    (drive : Nat → Value → Exec (World L × Life S) Step)
    (call : Value → List Value → Exec (World L × Life S) Value) (table : Table)
    (body : S → Value → Exec (World L) (Move S)) (start : S) (layers : List Layer) (bound : Nat)
    (turns : List (Turn (World L × Life S))) (places : ∀ t ∈ turns, t.place = layers.length)
    (w : World L) {r : Result (List Sight)} {p : Stacked (World L × Life S)}
    (run : takeTurns (World.stack drive call table body bound) Stacked.change turns
      (.fresh (w, .fresh start) layers) = (r, p))
    {before after : Log (World L × Life S)} {m : Mark (World L × Life S)}
    (hlog : p.log = before ++ m :: after) (lowest : m.place = 0) (finishes : m.act.Finishes) :
    ∃ action f token returned exchange w' rest,
      Handles table (Log.actsAt 0 (before ++ [m])) action f token (.ok returned) exchange ∧
      after = ⟨0, .read token (World.tokensIn m.world token), w'⟩ :: rest ∧
      ∀ v, (World.tokensIn m.world token).bind (·.outcome) = some (.abort v) →
        Shut layers.length (.ok (.completed v)) rest p ∧
          (∀ m' ∈ rest, m'.act.runsCode = false) ∧
          Silent (World.stack drive call table body bound) layers.length p ∧
          (Owned drive call turns → ∃ s, LeftAt action s p) := by
  have session := World.session places run
  obtain ⟨action, f, token, returned, exchange, record, w', rest, handles, rfl, onward⟩ :=
    session.finishes hlog lowest finishes
  have hrecord := session.kept.record hlog finishes.inner
  subst hrecord
  refine ⟨action, f, token, returned, exchange, w', rest, handles, rfl, ?_⟩
  intro v aborts
  rw [aborts] at onward
  have shut := onward.returns
  refine ⟨shut, shut.quiet, World.silent shut.lowest shut.shells, fun owned => ?_⟩
  refine (World.dormant places run owned).leftAt (hlog.trans (List.append_cons _ _ _)) handles ?_
  exact List.forall_mem_cons.mpr ⟨rfl, shut.quiet⟩

theorem abort_ends_stack_small :
    (∃ rest, Shut 4 (.ok (.completed (.int 7))) rest (Small.session Small.drive [.abort]).2) ∧
      ∃ action s, LeftAt action s (Small.session Small.drive [.abort]).2 := by
  have hlog := Log.split_at (Small.session Small.drive [.abort]).2.log 8 (by decide)
  obtain ⟨action, f, token, returned, exchange, w', rest, -, hafter, ends⟩ :=
    abort_ends_stack Small.drive (fun f arguments => (Small.call [.abort] 0 f arguments).beside)
      Small.table Small.body false Small.layers 9 Small.turns (by decide) { memory := () }
      (Prod.eta _).symm hlog rfl trivial
  have htoken : some 0 = some token := congrArg (fun after => after.head?.bind Mark.token?) hafter
  obtain rfl := Option.some.inj htoken
  obtain ⟨shut, -, -, left⟩ := ends (.int 7) rfl
  have owned := left ⟨fun _ _ _ => rfl, fun _ _ _ => rfl, by simp [Small.turns]⟩
  exact ⟨⟨rest, shut⟩, action, owned⟩

end OneShot
