import Mathlib.Data.List.Nodup
import Scriptorium.Script.Floor
import Scriptorium.Proofs.Document.Gates
import Scriptorium.Proofs.Host.MemberEffects

/-!
# What events do to the floor

All that an event can do to documents, gates and runs is one relation (`Floor.Moves`). What every floor has that
events have led to follows from it: each run that is inside holds its gate (`Floor.Orderly`), only an activation makes
another document current (`Floor.number?_run`), and a run keeps to the document that was current when it started
(`Floor.visit_run`).
-/

namespace Scriptorium.Script

/-! ## What requests do -/

/-- The documents change in no request but one that writes or saves the current one. -/
theorem desk_hostReply (w : World) (q : Request) :
    (hostReply w q).2.desk = w.desk ∨
      ∃ n f, q.target? w = some n ∧ (hostReply w q).2.desk = w.desk.update n f := by
  cases q with
  | print line => exact .inl rfl
  | get name m => exact .inl rfl
  | set name m d =>
    have htarget : name = "doc" → m.name = "content" → Request.target? w (.set name m d) = w.desk.number? := by
      rintro rfl hname
      simp only [Request.target?, Request.writes, hname, beq_self_eq_true, Bool.and_self, if_true, Desk.number?]
    rcases HostObject.set_cases w name m d with ⟨text, desk, hdoc, hcontent, -, hwrite, hset⟩ | ⟨f, hset⟩
    · obtain ⟨n, hn, hdesk⟩ := Desk.writeContent_eq_ok hwrite
      refine .inr ⟨n, (·.setContent text), (htarget hdoc hcontent).trans hn, ?_⟩
      simp only [hostReply, hset]
      exact hdesk
    · left
      simp only [hostReply, hset]
  | call name m args =>
    rcases HostObject.desk_call w name m args with hsame | ⟨hdoc, hsave, -, path?, hsaved⟩
    · exact .inl hsame
    · obtain ⟨n, document, path, hn, -, hdesk⟩ := Desk.save_eq_ok hsaved
      refine .inr ⟨n, _, ?_, hdesk⟩
      subst hdoc
      simp only [Request.target?, Request.writes, hsave, beq_self_eq_true, Bool.and_self, if_true]
      exact hn

theorem target?_eq_some {w : World} {q : Request} {n : Nat} (h : q.target? w = some n) : w.desk.number? = some n := by
  unfold Request.target? at h
  split at h
  · exact h
  · cases h

/-! ## Coming to the gate -/

variable {policy : BusyPolicy} {run : Nat} {d d' : Desk} {gate? : Option Nat} {n : Nat}

/-- A run that goes in has the gate of the current document, or there is no current document. -/
theorem enter_admitted (h : enter policy run d = .admitted gate? d') :
    gate? = d.number? ∧ d.Fades d' ∧
      (∀ n, gate? = some n → d.gateOf? n = none ∧ d'.gateOf? n = some run) ∧
      ∀ i, gate? ≠ some i → d'.gateOf? i = d.gateOf? i := by
  unfold enter at h
  split at h
  · next hcurrent =>
    obtain ⟨rfl, rfl⟩ := Admission.admitted.inj h
    refine ⟨by rw [Desk.number?, hcurrent]; rfl, Desk.Fades.refl _, nofun, fun _ _ => rfl⟩
  · next n s hcurrent =>
    have hnumber := (Desk.current?_eq_some hcurrent).1
    split at h
    · next hlock =>
      obtain ⟨rfl, rfl⟩ := Admission.admitted.inj h
      obtain ⟨hfree, hheld, hothers, hfades⟩ := Desk.tryLock_eq_some hlock
      refine ⟨hnumber.symm, hfades, ?_, fun i hi => hothers i fun heq => hi (congrArg some heq)⟩
      rintro _ ⟨⟩
      exact ⟨hfree, hheld⟩
    · cases policy <;> cases h

/-- A run that waits waits for the gate of the current document. -/
theorem enter_waiting (h : enter policy run d = .waiting n d') :
    d.number? = some n ∧ d.Fades d' ∧ ∀ i, d'.gateOf? i = d.gateOf? i := by
  unfold enter at h
  split at h
  · cases h
  · next k s hcurrent =>
    have hnumber := (Desk.current?_eq_some hcurrent).1
    split at h
    · cases h
    · cases policy with
      | queue =>
        obtain ⟨rfl, rfl⟩ := Admission.waiting.inj h
        exact ⟨hnumber, Desk.fades_await hnumber run, fun i => Desk.gateOf?_onSheet fun _ => rfl⟩
      | reject => cases h

theorem leave_effect (gate? : Option Nat) (d : Desk) :
    d.Fades (leave gate? d) ∧ ∀ i, gate? ≠ some i → (leave gate? d).gateOf? i = d.gateOf? i := by
  cases gate? with
  | none => exact ⟨Desk.Fades.refl d, fun _ _ => rfl⟩
  | some n =>
    exact ⟨Desk.fades_unlock d n, fun i hi => Desk.gateOf?_unlock_of_ne fun heq => hi (congrArg some heq)⟩

/-! ## Steps -/

namespace Floor

variable {f f' : Floor} {e : Event} {es : List Event} {v v' : Visit}

/-- What an event does: to which documents live, to the gates and to the runs that are under way. -/
inductive Moves (f : Floor) : Event → Floor → Prop where
  | quiet {e : Event} {world : World} (fades : f.desk.Fades world.desk)
      (gates : ∀ i, world.desk.gateOf? i = f.desk.gateOf? i) : Moves f e { f with world }
  | activated {n : Nat} (onDesk : n < f.desk.sheets.length) : Moves f (.activate n) (f.onDesk (f.desk.activate n))
  | turnedAway {run : Nat} {policy : BusyPolicy} (fresh : run ∉ f.started) :
      Moves f (.start run policy) { f with started := run :: f.started }
  | came {policy : BusyPolicy} {v : Visit} {desk : Desk} (fresh : v.run ∉ f.started)
      (current : v.gate? = f.desk.number?) (fades : f.desk.Fades desk)
      (takes : v.inside = true → ∀ n, v.gate? = some n → f.desk.gateOf? n = none ∧ desk.gateOf? n = some v.run)
      (gates : ∀ i, v.gate? ≠ some i ∨ v.inside = false → desk.gateOf? i = f.desk.gateOf? i) :
      Moves f (.start v.run policy)
        { f.onDesk desk with visits := v :: f.visits, started := v.run :: f.started }
  | admitted {run n : Nat} {desk : Desk} (waits : ⟨run, some n, false⟩ ∈ f.visits) (fades : f.desk.Fades desk)
      (takes : f.desk.gateOf? n = none ∧ desk.gateOf? n = some run)
      (gates : ∀ i, n ≠ i → desk.gateOf? i = f.desk.gateOf? i) :
      Moves f (.letIn run)
        { (f.without run).onDesk desk with visits := ⟨run, some n, true⟩ :: (f.without run).visits }
  | left {v : Visit} {desk : Desk} (inside : v ∈ f.visits ∧ v.inside = true) (fades : f.desk.Fades desk)
      (gates : ∀ i, v.gate? ≠ some i → desk.gateOf? i = f.desk.gateOf? i) :
      Moves f (.finish v.run) ((f.without v.run).onDesk desk)

theorem visit?_eq_some {run : Nat} {inside : Bool} (h : f.visit? run inside = some v) :
    v ∈ f.visits ∧ v.run = run ∧ v.inside = inside := by
  have hv := List.find?_some h
  simp only [Bool.and_eq_true, beq_iff_eq] at hv
  exact ⟨List.mem_of_find?_eq_some h, hv⟩

theorem gateOf?_add (d : Desk) (document : Document) (i : Nat) : (d.add document).2.gateOf? i = d.gateOf? i := by
  simp only [Desk.gateOf?, Desk.add, List.getElem?_append]
  split
  · rfl
  · next hi =>
    rw [List.getElem?_eq_none (Nat.le_of_not_lt hi), List.getElem?_singleton]
    split <;> rfl

theorem moves_start {run : Nat} (fresh : run ∉ f.started) (policy : BusyPolicy) :
    Moves f (.start run policy) (f.start run policy) := by
  unfold start
  dsimp only
  split
  · next gate? desk hentered =>
    obtain ⟨hcurrent, hfades, htakes, hgates⟩ := enter_admitted hentered
    exact .came (v := ⟨run, gate?, true⟩) fresh hcurrent hfades (fun _ => htakes)
      fun i hi => hgates i (hi.resolve_right Bool.noConfusion)
  · next n desk hentered =>
    obtain ⟨hcurrent, hfades, hgates⟩ := enter_waiting hentered
    exact .came (v := ⟨run, some n, false⟩) fresh hcurrent.symm hfades nofun fun i _ => hgates i
  · exact .turnedAway fresh

/-- All that an event can do. -/
theorem moves_of_step? (h : f.step? e = some f') : Moves f e f' := by
  cases e with
  | add document =>
    obtain rfl := Option.some.inj h
    exact .quiet (Desk.fades_add _ document) (gateOf?_add _ document)
  | activate n =>
    simp only [step?] at h
    split at h
    · next s hs =>
      split at h
      · obtain rfl := Option.some.inj h
        exact .activated (List.getElem?_eq_some_iff.1 hs).1
      · cases h
    · cases h
  | deactivate =>
    obtain rfl := Option.some.inj h
    exact .quiet ⟨.inr rfl, Nat.le_refl _, fun _ _ h => h⟩ fun _ => rfl
  | drop n =>
    obtain rfl := Option.some.inj h
    exact .quiet (Desk.fades_close _ n) fun i => Desk.gateOf?_onSheet fun _ => rfl
  | start run policy =>
    simp only [step?] at h
    split at h
    · cases h
    · next hfresh =>
      obtain rfl := Option.some.inj h
      exact moves_start hfresh policy
  | letIn run =>
    simp only [step?] at h
    split at h
    · next k n inside hvisit =>
      obtain ⟨hmem, hrun, hinside⟩ := visit?_eq_some hvisit
      obtain ⟨desk, hlock, rfl⟩ := Option.map_eq_some_iff.1 h
      obtain ⟨hfree, hheld, hothers, hfades⟩ := Desk.tryLock_eq_some hlock
      obtain rfl : k = run := hrun
      obtain rfl : inside = false := hinside
      exact .admitted hmem hfades ⟨hfree, hheld⟩ hothers
    · cases h
  | ask run q =>
    obtain ⟨v, -, rfl⟩ := Option.map_eq_some_iff.1 h
    rcases desk_hostReply f.world q with hsame | ⟨n, g, -, hupdate⟩
    · exact .quiet (by rw [hsame]; exact Desk.Fades.refl _) fun i => by rw [hsame]; rfl
    · exact .quiet (by rw [hupdate]; exact Desk.fades_update _ n g)
        fun i => by rw [hupdate]; exact Desk.gateOf?_onSheet fun _ => rfl
  | finish run =>
    obtain ⟨v, hvisit, rfl⟩ := Option.map_eq_some_iff.1 h
    obtain ⟨hmem, rfl, hinside⟩ := visit?_eq_some hvisit
    obtain ⟨hfades, hgates⟩ := leave_effect v.gate? f.desk
    exact .left ⟨hmem, hinside⟩ hfades hgates

/-! ## What holds on every floor -/

/-- The runs inside hold their gates. -/
structure Orderly (f : Floor) : Prop where
  numbers : (f.visits.map (·.run)).Nodup
  started : ∀ v ∈ f.visits, v.run ∈ f.started
  held : ∀ v ∈ f.visits, v.inside = true → ∀ n, v.gate? = some n → f.desk.gateOf? n = some v.run
  sound : f.desk.Sound

theorem orderly_opening (world : World) : (opening world).Orderly :=
  ⟨List.nodup_nil, nofun, nofun, nofun⟩

/-- Only one run holds a gate. -/
theorem Orderly.unique (h : f.Orderly) (hv : v ∈ f.visits) (hv' : v' ∈ f.visits) (hinside : v.inside = true)
    (hinside' : v'.inside = true) {n : Nat} (hn : v.gate? = some n) (hn' : v'.gate? = some n) : v = v' := by
  have hrun : v.run = v'.run :=
    Option.some.inj ((h.held v hv hinside n hn).symm.trans (h.held v' hv' hinside' n hn'))
  exact List.inj_on_of_nodup_map h.numbers hv hv' hrun

theorem mem_without {run : Nat} : v ∈ (f.without run).visits ↔ v ∈ f.visits ∧ v.run ≠ run := by
  simp [without, List.mem_filter]

theorem Orderly.without (h : f.Orderly) (run : Nat) : (f.without run).Orderly where
  numbers := (List.filter_sublist.map _).nodup h.numbers
  started v hv := h.started v (mem_without.1 hv).1
  held v hv := h.held v (mem_without.1 hv).1
  sound := h.sound

theorem Orderly.step (h : f.Orderly) (hs : f.step? e = some f') : f'.Orderly := by
  cases moves_of_step? hs with
  | quiet fades gates =>
    exact ⟨h.numbers, h.started, fun v hv hinside n hn => (gates n).trans (h.held v hv hinside n hn),
      fades.sound h.sound⟩
  | activated onDesk =>
    refine ⟨h.numbers, h.started, h.held, ?_⟩
    rintro _ ⟨⟩
    exact onDesk
  | turnedAway fresh => exact ⟨h.numbers, fun v hv => List.mem_cons_of_mem _ (h.started v hv), h.held, h.sound⟩
  | @came policy v desk fresh current fades takes gates =>
    refine ⟨?_, ?_, ?_, fades.sound h.sound⟩
    · rw [List.map_cons, List.nodup_cons]
      refine ⟨fun hmem => ?_, h.numbers⟩
      obtain ⟨w, hw, hrun⟩ := List.mem_map.1 hmem
      exact fresh (hrun ▸ h.started w hw)
    · intro w hw
      rcases List.mem_cons.1 hw with rfl | hw
      · exact List.mem_cons_self
      · exact List.mem_cons_of_mem _ (h.started w hw)
    · intro w hw hinside n hn
      rcases List.mem_cons.1 hw with rfl | hw
      · exact (takes hinside n hn).2
      · have hheld := h.held w hw hinside n hn
        refine (gates n ?_).trans hheld
        by_contra htaken
        rw [not_or, not_not, Bool.not_eq_false] at htaken
        rw [(takes htaken.2 n htaken.1).1] at hheld
        cases hheld
  | @admitted run n desk waits fades takes gates =>
    refine ⟨?_, ?_, ?_, fades.sound h.sound⟩
    · rw [List.map_cons, List.nodup_cons]
      refine ⟨fun hmem => ?_, (h.without run).numbers⟩
      obtain ⟨w, hw, hrun⟩ := List.mem_map.1 hmem
      exact (mem_without.1 hw).2 hrun
    · intro w hw
      rcases List.mem_cons.1 hw with rfl | hw
      · have hstarted : run ∈ f.started := h.started ⟨run, some n, false⟩ waits
        exact hstarted
      · exact h.started w (mem_without.1 hw).1
    · intro w hw hinside i hi
      rcases List.mem_cons.1 hw with rfl | hw
      · obtain rfl := Option.some.inj hi
        exact takes.2
      · have hheld := h.held w (mem_without.1 hw).1 hinside i hi
        refine (gates i ?_).trans hheld
        rintro rfl
        rw [takes.1] at hheld
        cases hheld
  | @left v desk inside fades gates =>
    refine ⟨(h.without v.run).numbers, (h.without v.run).started, ?_, fades.sound h.sound⟩
    intro w hw hinside n hn
    obtain ⟨hmem, hne⟩ := mem_without.1 hw
    refine (gates n fun hv => hne ?_).trans (h.held w hmem hinside n hn)
    rw [h.unique hmem inside.1 hinside inside.2 hn hv]

theorem Orderly.steps (h : f.Orderly) (hs : f.run? es = some f') : f'.Orderly := by
  induction es generalizing f with
  | nil => exact Option.some.inj hs ▸ h
  | cons e es ih =>
    obtain ⟨g, hg, hrest⟩ := Option.bind_eq_some_iff.1 hs
    exact ih (h.step hg) hrest

/-- Only an activation makes another document current. -/
theorem number?_step (h : f.Orderly) (hs : f.step? e = some f') {n : Nat} (hn : f'.desk.number? = some n) :
    f.desk.number? = some n ∨ e = .activate n := by
  cases moves_of_step? hs with
  | quiet fades | came _ _ fades | admitted _ fades | left _ fades => exact .inl (fades.number? h.sound hn)
  | turnedAway => exact .inl hn
  | @activated k =>
    have hactive : some k = some n := (Desk.number?_eq_some.1 hn).1
    exact .inr (Option.some.inj hactive ▸ rfl)

/-- The document that is current after events was current before them, or it was activated by one of them. -/
theorem number?_run (h : f.Orderly) (hs : f.run? es = some f') {n : Nat} (hn : f'.desk.number? = some n) :
    f.desk.number? = some n ∨ .activate n ∈ es := by
  induction es generalizing f with
  | nil => exact .inl (Option.some.inj hs ▸ hn)
  | cons e es ih =>
    obtain ⟨g, hg, hrest⟩ := Option.bind_eq_some_iff.1 hs
    rcases ih (h.step hg) hrest with hcurrent | hlater
    · rcases number?_step h hg hcurrent with hbefore | rfl
      · exact .inl hbefore
      · exact .inr List.mem_cons_self
    · exact .inr (List.mem_cons_of_mem _ hlater)

/-- A visit either was there before, with the same document, or comes to the document that is current. -/
theorem visit_step (hs : f.step? e = some f') (hv : v ∈ f'.visits) :
    (∃ w ∈ f.visits, w.run = v.run ∧ w.gate? = v.gate?) ∨
      ∃ policy, e = .start v.run policy ∧ v.run ∉ f.started ∧ v.gate? = f.desk.number? := by
  cases moves_of_step? hs with
  | quiet | activated | turnedAway => exact .inl ⟨v, hv, rfl, rfl⟩
  | @came policy w desk fresh current =>
    rcases List.mem_cons.1 hv with rfl | hold
    · exact .inr ⟨policy, rfl, fresh, current⟩
    · exact .inl ⟨v, hold, rfl, rfl⟩
  | @admitted run n desk waits =>
    rcases List.mem_cons.1 hv with rfl | hold
    · exact .inl ⟨_, waits, rfl, rfl⟩
    · exact .inl ⟨v, (mem_without.1 hold).1, rfl, rfl⟩
  | left => exact .inl ⟨v, (mem_without.1 hv).1, rfl, rfl⟩

theorem started_step (hs : f.step? e = some f') : f.started ⊆ f'.started := by
  cases moves_of_step? hs with
  | quiet | activated | admitted | left => exact fun _ h => h
  | turnedAway | came => exact List.subset_cons_self _ _

/-- Where a visit comes from: it was there before the events, or one of them has started the run, at the gate of the
document that was current then. -/
theorem visit_run (hs : f.run? es = some f') (hv : v ∈ f'.visits) :
    (∃ w ∈ f.visits, w.run = v.run ∧ w.gate? = v.gate?) ∨
      (v.run ∉ f.started ∧ ∃ before policy after g, es = before ++ .start v.run policy :: after ∧
        f.run? before = some g ∧ v.gate? = g.desk.number?) := by
  induction es generalizing f with
  | nil => exact .inl ⟨v, Option.some.inj hs ▸ hv, rfl, rfl⟩
  | cons e es ih =>
    obtain ⟨g, hg, hrest⟩ := Option.bind_eq_some_iff.1 hs
    rcases ih hrest with ⟨w, hw, hrun, hgate⟩ | ⟨hfresh, before, policy, after, k, rfl, hbefore, hgate⟩
    · rcases visit_step hg hw with ⟨u, hu, hrun', hgate'⟩ | ⟨policy, rfl, hfresh, hcurrent⟩
      · exact .inl ⟨u, hu, hrun'.trans hrun, hgate'.trans hgate⟩
      · rw [hrun] at hfresh ⊢
        exact .inr ⟨hfresh, [], policy, es, f, rfl, rfl, hgate.symm.trans hcurrent⟩
    · refine .inr ⟨fun hmem => hfresh (started_step hg hmem), e :: before, policy, after, k, rfl, ?_, hgate⟩
      rw [run?, hg]
      exact hbefore

theorem run?_append (f : Floor) (es es' : List Event) : f.run? (es ++ es') = (f.run? es).bind (·.run? es') := by
  induction es generalizing f with
  | nil => rfl
  | cons e es ih =>
    rw [List.cons_append, run?, run?, Option.bind_assoc]
    exact congrArg _ (funext ih)

/-- A run keeps to its document as long as it is under way. -/
theorem gate?_eq_of_run (h : f.Orderly) (hs : f.run? es = some f') (hv : v ∈ f.visits) (hv' : v' ∈ f'.visits)
    (hrun : v.run = v'.run) : v.gate? = v'.gate? := by
  rcases visit_run hs hv' with ⟨w, hw, hsame, hgate⟩ | ⟨hfresh, -⟩
  · rw [← hgate, List.inj_on_of_nodup_map h.numbers hv hw (hrun.trans hsame.symm)]
  · exact absurd (hrun ▸ h.started v hv) hfresh

end Floor

end Scriptorium.Script
