import PriceTime.Proofs.Surroundings

/-!
# Starting over

A session that starts over is a new one with the same settings: the book hands out slots and level
keys from zero again, the tape, the figures and their histories are empty, and nothing is left of
what the figures remembered. The settings themselves are kept by every call. So whatever is done
after a new start is done as if nothing had been done before.

* `Session.call_settings`: what one call keeps of the settings.
* `Session.reset_eq`: a new start gives the fresh session.
* `Session.run_append`: a run in two parts.
* `Session.run_reset`: a run with a new start in it.
-/

namespace PriceTime

/-! ## Figures -/

/-- The figures reach as deep, and their histories as far back, as some settings say. -/
structure Indicators.Follows (i : Indicators) (config : BookConfig) : Prop where
  depth_eq : i.depth = config.volumeDepth.toNat
  changes_eq : i.changes.capacity = config.historyCapacity.toNat
  mids_eq : i.mids.capacity = config.historyCapacity.toNat

namespace Indicators.Follows

variable {i : Indicators} {config : BookConfig}

theorem clear_eq (h : i.Follows config) :
    i.clear = .fresh config.volumeDepth.toNat config.historyCapacity.toNat := by
  unfold Indicators.clear Window.clear
  rw [h.depth_eq, h.changes_eq, h.mids_eq]
  rfl

theorem drawSkew (h : i.Follows config) (b : Book) : (i.drawSkew b).2.Follows config := by
  unfold Indicators.drawSkew
  split
  · exact ⟨h.depth_eq, h.changes_eq, h.mids_eq⟩
  · exact h

theorem drawChange (h : i.Follows config) (b : Book) : (i.drawChange b).2.Follows config := by
  unfold Indicators.drawChange
  split
  · exact ⟨h.depth_eq, h.changes_eq, h.mids_eq⟩
  · exact h

theorem drawMid (h : i.Follows config) (b : Book) : (i.drawMid b).2.Follows config := by
  unfold Indicators.drawMid
  split
  · exact ⟨h.depth_eq, h.changes_eq, h.mids_eq⟩
  · exact h

end Indicators.Follows

namespace Session

variable {s : Session} {config : BookConfig}

/-- A session follows the settings it was made with, and so do its figures. -/
structure Follows (s : Session) (config : BookConfig) : Prop where
  config_eq : s.config = config
  indicators : s.indicators.Follows config

/-! ## One call -/

/-- No call changes the settings. -/
theorem call_settings (h : s.Follows config) (call : Call) :
    Yields False (s.call call) fun r => r.2.1.Follows config := by
  have hkept : ∀ book, Follows { s with book } config := fun _ => ⟨h.config_eq, h.indicators⟩
  have hbook {α : Type} (f : Book → Except Fault (Step Book α)) :=
    onBook_keeps (fun s' => s'.Follows config) hkept f
  cases call with
  | process m =>
    have hprocess := process_keeps (fun s' => s'.Follows config) m fun _ =>
      ⟨h.config_eq, h.indicators⟩
    exact hprocess.bind fun step hstep => Yields.ok hstep
  | add => exact (hbook _).bind fun step hstep => Yields.ok hstep
  | remove => exact (hbook _).bind fun step hstep => Yields.ok hstep
  | modify => exact (hbook _).bind fun step hstep => Yields.ok hstep
  | trade id price size side =>
    have htrade := trade_keeps (fun s' => s'.Follows config) id price size side fun _ =>
      ⟨h.config_eq, h.indicators⟩
    exact htrade.bind fun r hr => Yields.ok hr
  | drawVolumes =>
    obtain ⟨hdepth, hchanges, hmids⟩ := h.indicators
    exact Yields.ok ⟨h.config_eq, hdepth, hchanges, hmids⟩
  | drawImbalance =>
    obtain ⟨hdepth, hchanges, hmids⟩ := h.indicators
    exact Yields.ok ⟨h.config_eq, hdepth, hchanges, hmids⟩
  | drawSkew => exact Yields.ok ⟨h.config_eq, h.indicators.drawSkew s.book⟩
  | drawChange => exact Yields.ok ⟨h.config_eq, h.indicators.drawChange s.book⟩
  | drawMid => exact Yields.ok ⟨h.config_eq, h.indicators.drawMid s.book⟩
  | reset =>
    obtain ⟨hdepth, hchanges, hmids⟩ := h.indicators
    exact Yields.ok ⟨h.config_eq, hdepth, hchanges, hmids⟩

/-! ## A run -/

theorem run_settings (h : s.Follows config) {calls : List Call} {s' : Session}
    {log : List (Answer × List Event)} (hrun : s.run calls = .ok (s', log)) : s'.Follows config :=
  run_keeps (fun _ s => s.Follows config) (fun g _ _ => g)
    (fun hs hcall => (call_settings hs _).sound _ hcall) (g := ()) h hrun

/-- A new start leaves nothing but the settings. -/
theorem reset_eq (h : s.book.WellFormed) (hs : s.Follows config) : s.reset = ofConfig config := by
  unfold reset ofConfig
  rw [h.clear_eq, hs.indicators.clear_eq, hs.config_eq]

theorem run_append (s : Session) (calls more : List Call) :
    s.run (calls ++ more) = s.run calls >>= fun r => r.1.run more >>= fun r' =>
      .ok (r'.1, r.2 ++ r'.2) := by
  induction calls generalizing s with
  | nil =>
    show s.run more = s.run more >>= fun r' => .ok r'
    cases s.run more <;> rfl
  | cons call calls ih =>
    rw [List.cons_append, run_cons, run_cons, bind_assoc]
    cases s.call call with
    | error fault => rfl
    | ok r =>
      rw [ok_bind, ok_bind, ih]
      cases r.2.1.run calls with
      | error fault => rfl
      | ok r' =>
        rw [ok_bind, ok_bind, ok_bind]
        dsimp only
        cases r'.1.run more <;> rfl

/-- What is done after a new start is done by a fresh session. -/
theorem run_reset_eq (config : BookConfig) (calls more : List Call) :
    (ofConfig config).run (calls ++ .reset :: more) =
      (ofConfig config).run calls >>= fun r => (ofConfig config).run more >>= fun r' =>
        .ok (r'.1, r.2 ++ (.done, []) :: r'.2) := by
  rw [run_append]
  cases hrun : (ofConfig config).run calls with
  | error fault => rfl
  | ok r =>
    have hbook := (run_wellFormed (s := ofConfig config) Book.WellFormed.empty calls).sound r hrun
    have hsettings : r.1.Follows config := run_settings ⟨rfl, rfl, rfl, rfl⟩ hrun
    have hcall : r.1.call .reset = .ok (.done, ofConfig config, []) := by
      rw [← reset_eq hbook hsettings]
      rfl
    rw [ok_bind, ok_bind, run_cons, hcall, ok_bind, bind_assoc]
    rfl

/-- A run with a new start in it gives the answers of its first part, and then the answers and the
session of its second part, done alone by a fresh session. The sessions are the same as a whole, so
that everything that can be asked of them has the same answer, at the end and, as the second part is
any run, at every moment before. With room for the two parts there is such a session. -/
theorem run_reset (config : BookConfig) (calls more : List Call) :
    ((ofConfig config).Roomy calls → (ofConfig config).Roomy more →
        ∃ s log log', (ofConfig config).run more = .ok (s, log') ∧
          (ofConfig config).run (calls ++ .reset :: more) = .ok (s, log ++ (.done, []) :: log')) ∧
      (ofConfig config).run (calls ++ .reset :: more) =
        (ofConfig config).run calls >>= fun r => (ofConfig config).run more >>= fun r' =>
          .ok (r'.1, r.2 ++ (.done, []) :: r'.2) := by
  refine ⟨?_, run_reset_eq config calls more⟩
  intro hcalls hmore
  have hfresh : (ofConfig config).book.WellFormed := Book.WellFormed.empty
  obtain ⟨r, hr⟩ := (run_wellFormed hfresh calls).answers hcalls
  obtain ⟨r', hr'⟩ := (run_wellFormed hfresh more).answers hmore
  refine ⟨r'.1, r.2, r'.2, hr', ?_⟩
  rw [run_reset_eq, hr, hr']
  rfl

/-- Figures are drawn, a trade empties one side, and after the new start the first slot is given out
again and the change of volume is that of a session that has seen no prices before. -/
theorem run_reset_figures :
    ∃ s log log', (ofConfig {}).run [.add 4 98 1 .bid 7, .add 5 99 2 .ask 7, .drawChange] =
        .ok (s, log') ∧
      (ofConfig {}).run ([.add 1 100 5 .bid 0, .add 2 101 4 .ask 1, .drawChange, .drawVolumes,
        .trade 9 101 4 .bid] ++ .reset :: [.add 4 98 1 .bid 7, .add 5 99 2 .ask 7, .drawChange]) =
        .ok (s, log ++ (.done, []) :: log') :=
  (run_reset {} _ _).1 (roomy_of_length_lt _ _ (by decide)) (roomy_of_length_lt _ _ (by decide))

end Session

end PriceTime
