import Scriptorium.Proofs.Disk.ReadBack
import Scriptorium.Proofs.Script.FloorMoves
import Scriptorium.Proofs.Script.StopReasons

/-!
# Runs and the gates that they hold

A run takes the gate of the document that is current when it starts, and keeps to that document only as long as the
editor does: what it writes and saves is the document that is current then. So a run writes the document whose gate
it holds as long as no other document has been activated since it started (`runs_write_gated`), and an activation
in the midst of a run is all it takes for two runs to write one document (`runs_write_one_document`).
-/

namespace Scriptorium.Script

namespace Floor

variable {f : Floor}

/-! ## Runs of a runner -/

/-- The world after requests were answered. -/
def answered (w : World) (qs : List Request) : World := qs.foldl (fun w q => (hostReply w q).2) w

theorem exists_answered_of_unfolds {σ : Type} {engine : Engine σ} {r r' : Run σ} {looks : List (Option StopReason)}
    {result : Except HostFailure (List Datum)} (h : Run.Unfolds engine r looks result r') :
    ∃ qs, r'.world = answered r.world qs := by
  induction h with
  | finished => exact ⟨[], rfl⟩
  | @asked r r' looks result q _ _ ih =>
    obtain ⟨qs, hqs⟩ := ih
    exact ⟨q :: qs, hqs⟩
  | watched _ _ _ _ ih => exact ih

/-- All that a script does to the world, it does by requests, also where it ends with the host. -/
theorem exists_answered_of_attempt {s s' : Session} {clock : Nat → Nat} {cancel : Bool} {name text : String}
    {result : Except String Evaluation} (h : s.attempt clock cancel name text = some (result, s')) :
    ∃ qs, s'.world = answered s.world qs := by
  obtain ⟨looks, ev, hexecutes, -⟩ := Session.exists_executes_of_attempt h
  cases hexecutes with
  | blank => exact ⟨[], rfl⟩
  | refused => exact ⟨[], rfl⟩
  | ran _ _ _ hunfolds => exact exists_answered_of_unfolds hunfolds

theorem visit?_cons (v : Visit) (visits : List Visit) (world : World) (started : List Nat) :
    (⟨world, v :: visits, started⟩ : Floor).visit? v.run v.inside = some v := by
  simp [visit?]

theorem run?_asks (v : Visit) (hinside : v.inside = true) (visits : List Visit) (world : World) (started : List Nat)
    (qs : List Request) :
    (⟨world, v :: visits, started⟩ : Floor).run? (qs.map (.ask v.run)) =
      some ⟨answered world qs, v :: visits, started⟩ := by
  induction qs generalizing world with
  | nil => rfl
  | cons q qs ih =>
    have hvisit := visit?_cons v visits world started
    rw [hinside] at hvisit
    rw [List.map_cons, run?, step?, hvisit]
    exact ih _

/-- A run of a runner that is not turned away is one of the histories, from the gate to its end. -/
theorem run?_of_start {r : Runner} {clock : Nat → Nat} {cancel : Bool} {run : Nat} {source : Source}
    {outcome : RunOutcome} {w : World} (h : f.Orderly) (hfresh : run ∉ f.started)
    (hstart : r.start clock cancel run source f.world = some (outcome, w))
    (hadmitted : outcome ≠ .error (.busy source.name)) :
    ∃ qs : List Request, f.run? (.start run r.busyPolicy :: (qs.map (.ask run) ++ [.finish run])) =
      some ⟨w, f.visits, run :: f.started⟩ := by
  unfold Runner.start at hstart
  split at hstart
  · cases hstart
    exact absurd rfl hadmitted
  · cases hstart
  · next gate? desk hentered =>
    obtain ⟨⟨outcome', w'⟩, hperform, hpair⟩ := Option.map_eq_some_iff.1 hstart
    obtain ⟨-, rfl⟩ := Prod.mk.inj hpair
    obtain ⟨⟨result, s⟩, hattempt, hpair⟩ := Option.map_eq_some_iff.1 hperform
    obtain rfl : s.world = w' := by cases result <;> exact (Prod.mk.inj hpair).2
    obtain ⟨qs, hqs⟩ := exists_answered_of_attempt hattempt
    have hworld : s.world = answered { f.world with desk } qs := hqs
    refine ⟨qs, ?_⟩
    let v : Visit := ⟨run, gate?, true⟩
    have hcame : f.step? (.start run r.busyPolicy) =
        some ⟨{ f.world with desk }, v :: f.visits, run :: f.started⟩ := by
      have hdesk : enter r.busyPolicy run { f with started := run :: f.started }.desk = .admitted gate? desk := hentered
      simp only [step?, hfresh, if_false, start, hdesk]
      rfl
    have hleft : f.visits.filter (·.run != run) = f.visits := by
      rw [List.filter_eq_self]
      intro u hu
      have hne : u.run ≠ run := fun heq => hfresh (heq ▸ h.started u hu)
      simpa using hne
    have hwithout : (v :: f.visits).filter (·.run != run) = f.visits := by
      rw [List.filter_cons_of_neg (by simp [v]), hleft]
    have hvisit := visit?_cons v f.visits (answered { f.world with desk } qs) (run :: f.started)
    rw [run?, hcame, Option.bind_some, run?_append, run?_asks v rfl, Option.bind_some, run?, step?, hvisit, ← hworld]
    simp only [Option.map_some, Option.bind_some, run?, without, onDesk, hwithout]
    rfl

/-! ## Histories -/

/-- After these events, a run is inside and goes for a document, if for any. -/
def Inside (world : World) (past : List Event) (run : Nat) (gate? : Option Nat) : Prop :=
  ∃ f, (opening world).run? past = some f ∧ ∃ v ∈ f.visits, v.run = run ∧ v.inside = true ∧ v.gate? = gate?

/-- After these events, a run is inside, and a request that it makes writes or saves a document. -/
def Writes (world : World) (past : List Event) (run : Nat) (q : Request) (n : Nat) : Prop :=
  ∃ f, (opening world).run? past = some f ∧ (∃ v ∈ f.visits, v.run = run ∧ v.inside = true) ∧
    q.target? f.world = some n

/-- Since a run has come to the gate, no other document has been activated than the one that was current then. -/
def Undisturbed (world : World) (past : List Event) (run : Nat) : Prop :=
  ∀ before policy after g, past = before ++ .start run policy :: after → (opening world).run? before = some g →
    ∀ n, .activate n ∈ after → g.desk.number? = some n

variable {world : World} {events past past' : List Event} {run run' n : Nat} {gate? gate?' : Option Nat}
  {q : Request}

theorem Inside.unique (h : Inside world past run (some n)) (h' : Inside world past run' (some n)) : run = run' := by
  obtain ⟨f, hf, v, hv, rfl, hinside, hn⟩ := h
  obtain ⟨f', hf', v', hv', rfl, hinside', hn'⟩ := h'
  obtain rfl : f = f' := Option.some.inj (hf.symm.trans hf')
  rw [((orderly_opening world).steps hf).unique hv hv' hinside hinside' hn hn']

theorem Inside.gate?_eq (h : Inside world past run gate?) (h' : Inside world past' run gate?')
    (hpast : past <+: events) (hpast' : past' <+: events) : gate? = gate?' := by
  obtain ⟨f, hf, v, hv, hrun, -, rfl⟩ := h
  obtain ⟨f', hf', v', hv', hrun', -, rfl⟩ := h'
  rcases List.prefix_or_prefix_of_prefix hpast hpast' with ⟨es, rfl⟩ | ⟨es, rfl⟩
  · rw [run?_append, hf] at hf'
    exact gate?_eq_of_run ((orderly_opening world).steps hf) hf' hv hv' (hrun.trans hrun'.symm)
  · rw [run?_append, hf'] at hf
    exact (gate?_eq_of_run ((orderly_opening world).steps hf') hf hv' hv (hrun'.trans hrun.symm)).symm

/-- A run that is undisturbed writes the document whose gate it holds. -/
theorem Writes.inside (h : Writes world past run q n) (hundisturbed : Undisturbed world past run) :
    Inside world past run (some n) := by
  obtain ⟨f, hf, ⟨v, hv, rfl, hinside⟩, htarget⟩ := h
  refine ⟨f, hf, v, hv, rfl, hinside, ?_⟩
  rcases visit_run hf hv with ⟨w, hw, -⟩ | ⟨-, before, policy, after, g, rfl, hbefore, hgate⟩
  · cases hw
  · rw [hgate]
    rw [run?_append, hbefore] at hf
    rcases number?_run ((orderly_opening world).steps hbefore) hf (target?_eq_some htarget) with hcurrent | hactivated
    · exact hcurrent
    · rcases List.mem_cons.1 hactivated with heq | hafter
      · cases heq
      · exact hundisturbed before policy after g rfl hbefore n hafter

theorem Inside.held (h : Inside world past run (some n)) :
    ∃ f, (opening world).run? past = some f ∧ f.desk.gateOf? n = some run := by
  obtain ⟨f, hf, v, hv, rfl, hinside, hn⟩ := h
  exact ⟨f, hf, ((orderly_opening world).steps hf).held v hv hinside n hn⟩

/-- In every history of the editor and its runs, whatever the order of their events: one run at most holds the gate
of a document; a request changes no document but the one that it writes or saves; and a run writes and saves the
document whose gate it holds as long as no other document has been activated since it came to the gate. So no two
runs that are undisturbed when they write one document are ever inside at the same time. -/
theorem runs_write_gated (world : World) :
    (∀ past run n, Inside world past run (some n) →
      (∃ f, (opening world).run? past = some f ∧ f.desk.gateOf? n = some run) ∧
        ∀ run', Inside world past run' (some n) → run = run') ∧
    (∀ (w : World) (q : Request) (i : Nat), q.target? w ≠ some i →
      (hostReply w q).2.desk.document? i = w.desk.document? i) ∧
    (∀ past run q n, Writes world past run q n → Undisturbed world past run → Inside world past run (some n)) ∧
    (∀ events past past' between run run' q q' n gate? gate?', past <+: events → past' <+: events →
      between <+: events → Writes world past run q n → Undisturbed world past run →
      Writes world past' run' q' n → Undisturbed world past' run' →
      Inside world between run gate? → Inside world between run' gate?' → run = run') := by
  refine ⟨fun past run n h => ⟨h.held, fun run' h' => h.unique h'⟩, fun w q i hi => ?_,
    fun past run q n h => h.inside, ?_⟩
  · rcases desk_hostReply w q with hsame | ⟨n, f, hn, hupdate⟩
    · rw [hsame]
    · rw [hupdate, Desk.document?_update, if_neg fun heq : n = i => hi (heq ▸ hn)]
  · intro events past past' between run run' q q' n gate? gate?' hpast hpast' hbetween hwrites hundisturbed hwrites'
      hundisturbed' hinside hinside'
    have hgate := (hwrites.inside hundisturbed).gate?_eq hinside hpast hbetween
    have hgate' := (hwrites'.inside hundisturbed').gate?_eq hinside' hpast' hbetween
    exact Inside.unique (hgate ▸ hinside) (hgate' ▸ hinside')

/-- The property that holds the text of the active document. -/
def content : Member :=
  { name := "content", kind := .property, namespaceName := "doc", signature := "doc.content", description := "" }

/-- An assignment to the content of the active document. -/
def assignment : Request := .set "doc" content (.ofString "new")

/-- A run that starts while a document is active writes it and holds its gate. -/
theorem runs_write_gated_undisturbed :
    let world : World := { now := default }
    let past : List Event := [.add { content := "first" }, .activate 0, .start 1 .queue]
    Writes world past 1 assignment 0 ∧ Undisturbed world past 1 ∧ Inside world past 1 (some 0) := by
  intro world past
  have hwrites : Writes world past 1 assignment 0 :=
    ⟨_, rfl, ⟨⟨1, some 0, true⟩, List.mem_cons_self, rfl, rfl⟩, rfl⟩
  have hundisturbed : Undisturbed world past 1 := by
    intro before policy after g hpast
    rcases before with _ | ⟨a, _ | ⟨b, _ | ⟨c, before⟩⟩⟩ <;> simp [past] at hpast
    simp [hpast]
  exact ⟨hwrites, hundisturbed, (runs_write_gated world).2.2.1 past 1 assignment 0 hwrites hundisturbed⟩

/-- Two documents; a run starts while the first is active, and another one after the second was activated. -/
def switching : List Event :=
  [.add { content := "first" }, .activate 0, .start 1 .queue, .add { content := "second" }, .activate 1,
    .start 2 .queue]

/-- The floor after the runs have switched documents. -/
def switched (world : World) : Floor :=
  { world := { world with
      desk :=
        { sheets := [{ document := { content := "first" }, gate? := some 1 },
            { document := { content := "second" }, gate? := some 2 }]
          active? := some 1 } }
    visits := [⟨2, some 1, true⟩, ⟨1, some 0, true⟩]
    started := [2, 1] }

theorem run?_switching (world : World) : (opening world).run? switching = some (switched world) := rfl

/-- An activation in the midst of a run: the run then writes the second document, although it holds the gate of the
first, and although another run holds that of the second and writes it too. -/
theorem runs_write_one_document :
    let world : World := { now := default }
    Inside world switching 1 (some 0) ∧ Inside world switching 2 (some 1) ∧
      ¬ Inside world switching 1 (some 1) ∧
      Writes world switching 1 assignment 1 ∧ Writes world switching 2 assignment 1 ∧
      ∃ f, (opening world).run? (switching ++ [.ask 1 assignment]) = some f ∧
        f.desk.document? 1 = some { content := "new", dirty := true } ∧ f.desk.gateOf? 1 = some 2 := by
  intro world
  have hswitching := run?_switching world
  have hfirst : (⟨1, some 0, true⟩ : Visit) ∈ (switched world).visits := by decide
  have hsecond : (⟨2, some 1, true⟩ : Visit) ∈ (switched world).visits := by decide
  have hinside : Inside world switching 2 (some 1) := ⟨_, hswitching, _, hsecond, rfl, rfl, rfl⟩
  refine ⟨⟨_, hswitching, _, hfirst, rfl, rfl, rfl⟩, hinside, fun h => absurd (h.unique hinside) (by decide),
    ⟨_, hswitching, ⟨_, hfirst, rfl, rfl⟩, rfl⟩, ⟨_, hswitching, ⟨_, hsecond, rfl, rfl⟩, rfl⟩, ?_⟩
  have htext : HostObject.contentOf (.ofString "new") = .ok "new" := by
    simp only [Datum.ofString, HostObject.contentOf, HostObject.utf8, fromUTF8?_toUTF8]
  have hreply : hostReply (switched world).world assignment =
      (.ok [], { (switched world).world with desk := (switched world).desk.update 1 (·.setContent "new") }) := by
    have hdesk : (switched world).world.desk.writeContent "new" =
        .ok ((switched world).desk.update 1 (·.setContent "new")) := rfl
    simp only [assignment, hostReply, HostObject.set_content (m := content) rfl htext hdesk]
    rfl
  rw [run?_append, hswitching]
  refine ⟨{ switched world with world := (hostReply (switched world).world assignment).2 }, rfl, ?_⟩
  rw [hreply]
  exact ⟨rfl, rfl⟩

end Floor

end Scriptorium.Script
