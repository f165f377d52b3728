import Scriptorium.Script.Access

/-!
# Acts of the host

What the host does in a session by itself is an act that a machine without a script carries out. What comes of an
act is put together from what comes of its parts (`Act.Ends`). An act that ends within one interval of the guard
ends in the session as it does on the machine (`Session.performOne_of_ends`): neither the guard nor the limits of
the session have a part in it.
-/

namespace Scriptorium.Script

/-! ## Ticks -/

/-- A step of a machine and the host: what the machine asks is answered. -/
def tick (c : Machine × World) : Machine × World :=
  match c.1.request? with
  | some r => (c.1.answer (hostReply c.2 r).1, (hostReply c.2 r).2)
  | none => (c.1.step, c.2)

/-- At most so many ticks lead from one state to another. -/
inductive Ticks : Nat → Machine × World → Machine × World → Prop where
  | refl (n : Nat) (c : Machine × World) : Ticks n c c
  | step {n : Nat} {c d : Machine × World} (rest : Ticks n (tick c) d) : Ticks (n + 1) c d

variable {n k ahead fuel : Nat} {c d e : Machine × World} {m m' : Machine} {w w' : World}

theorem Ticks.more (h : Ticks n c d) (k : Nat) : Ticks (k + n) c d := by
  induction h with
  | refl n c => exact .refl _ c
  | step _ ih => exact .step ih

theorem Ticks.trans (h : Ticks n c d) (h' : Ticks k d e) : Ticks (n + k) c e := by
  induction h with
  | refl n c => exact h'.more n
  | step _ ih =>
    rw [Nat.add_right_comm]
    exact .step (ih h')

namespace Machine

theorem advance_of_paused (h : m.paused = true) (n : Nat) : advance n m = (n, m) := by
  cases n with
  | zero => rfl
  | succ n => rw [advance, if_pos h]

theorem advance_succ (h : m.paused = false) (n : Nat) : advance (n + 1) m = advance n m.step := by
  rw [advance, h]
  rfl

theorem paused_of_request? {r : Request} (h : m.request? = some r) : m.paused = true := by
  rw [paused, h]
  rfl

theorem paused_of_outcome? {r : Except Value (List Value)} (h : m.outcome? = some r) : m.paused = true := by
  rw [paused, h]
  exact Bool.or_true _

theorem outcome?_of_request? {r : Request} (h : m.request? = some r) : m.outcome? = none := by
  obtain ⟨store, control, frames, depth, inner⟩ := m
  cases control with
  | finished => cases h
  | _ => rfl

theorem step_of_outcome? {r : Except Value (List Value)} (h : m.outcome? = some r) : m.step = m := by
  obtain ⟨store, control, frames, depth, inner⟩ := m
  cases control with
  | finished => rfl
  | _ => cases h

theorem enter_member {p : Nat} {namespaceName : String} {member : Member} {args : List Value} {origin : Origin}
    (hdepth : m.depth < depthLimit) (hinner : m.inner < innerLimit)
    (hp : m.store.closures[p]? = some (.member namespaceName member)) :
    m.enter (.closure p) origin args = m.startLibrary (callMember namespaceName member args) := by
  simp only [enter, if_neg (Nat.not_le.2 hdepth), if_neg (Nat.not_le.2 hinner), hp]

theorem enter_builtin {b : Builtin} {args : List Value} {origin : Origin} (hdepth : m.depth < depthLimit)
    (hinner : m.inner < innerLimit) :
    m.enter (.builtin b) origin args = m.startLibrary (Library.perform ⟨b, origin⟩ args) := by
  simp only [enter, if_neg (Nat.not_le.2 hdepth), if_neg (Nat.not_le.2 hinner)]

end Machine

namespace Run

variable (clock : Nat → Nat) (guard : Guard) (output : Output) (ahead looks : Nat)

theorem finish_finished {r : Except Value (List Value)} (h : m.outcome? = some r) (fuel : Nat) (w : World) :
    ∃ result, finish machineEngine clock (fuel + 1) ⟨m, w, guard, output, ahead, looks⟩ =
      some (result, ⟨m, w, guard, output, ahead, looks⟩) := by
  have hadvance : machineEngine.advance ahead m = (ahead, m) :=
    Machine.advance_of_paused (Machine.paused_of_outcome? h) ahead
  have hstanding : ∃ result, machineEngine.standing m = .finished result := by
    simp only [machineEngine, h]
    cases r <;> exact ⟨_, rfl⟩
  obtain ⟨result, hstanding⟩ := hstanding
  rw [finish, hadvance]
  dsimp only
  rw [hstanding]
  exact ⟨result, rfl⟩

theorem finish_asking {q : Request} (h : m.request? = some q) (fuel : Nat) (w : World) :
    finish machineEngine clock (fuel + 1) ⟨m, w, guard, output, ahead, looks⟩ =
      finish machineEngine clock fuel (serve machineEngine ⟨m, w, guard, output, ahead, looks⟩ q) := by
  have hadvance : machineEngine.advance ahead m = (ahead, m) :=
    Machine.advance_of_paused (Machine.paused_of_request? h) ahead
  have hstanding : machineEngine.standing m = .asking q := by
    simp only [machineEngine, Machine.outcome?_of_request? h, h]
  rw [finish, hadvance]
  dsimp only
  rw [hstanding]

theorem finish_running (h : m.paused = false) (fuel : Nat) (w : World) :
    finish machineEngine clock (fuel + 1) ⟨m, w, guard, output, ahead + 1, looks⟩ =
      finish machineEngine clock (fuel + 1) ⟨m.step, w, guard, output, ahead, looks⟩ := by
  have hadvance : machineEngine.advance (ahead + 1) m = machineEngine.advance ahead m.step :=
    Machine.advance_succ h ahead
  rw [finish, finish, hadvance]

/-- A run of the machine that ends within an interval ends as its ticks do. -/
theorem finish_of_ticks {r : Except Value (List Value)} (h : Ticks n (m, w) (m', w')) (hend : m'.outcome? = some r)
    (hahead : n ≤ ahead) (hfuel : n ≤ fuel) : ∃ result run,
      finish machineEngine clock (fuel + 1) ⟨m, w, guard, output, ahead, looks⟩ = some (result, run) ∧
        run.state = m' ∧ run.world = w' := by
  generalize hc : (m, w) = c at h
  generalize hd : (m', w') = d at h
  -- The induction is on the ticks; a request takes fuel, and any other step an instruction of the interval.
  induction h generalizing m w ahead fuel output with
  | refl n c =>
    obtain ⟨rfl, rfl⟩ := Prod.mk.inj (hc.trans hd.symm)
    obtain ⟨result, hfinish⟩ := finish_finished clock guard output ahead looks hend fuel w
    exact ⟨result, _, hfinish, rfl, rfl⟩
  | @step n c d rest ih =>
    subst hc
    cases hrequest : m.request? with
    | some q =>
      obtain ⟨fuel, rfl⟩ := Nat.exists_eq_succ_of_ne_zero (Nat.ne_of_gt (Nat.zero_lt_of_lt hfuel))
      rw [finish_asking clock guard output ahead looks hrequest]
      refine ih _ ahead (Nat.le_of_succ_le hahead) (Nat.le_of_succ_le_succ hfuel) ?_ hd
      simp only [tick, hrequest]
      rfl
    | none =>
      have htick : tick (m, w) = (m.step, w) := by simp only [tick, hrequest]
      cases houtcome : m.outcome? with
      | some r =>
        rw [Machine.step_of_outcome? houtcome] at htick
        exact ih output ahead (Nat.le_of_succ_le hahead) (Nat.le_of_succ_le hfuel) htick.symm hd
      | none =>
        have hrunning : m.paused = false := by
          rw [Machine.paused, hrequest, houtcome]
          rfl
        obtain ⟨ahead, rfl⟩ := Nat.exists_eq_succ_of_ne_zero (Nat.ne_of_gt (Nat.zero_lt_of_lt hahead))
        rw [finish_running clock guard output ahead looks hrunning]
        exact ih output ahead (Nat.le_of_succ_le_succ hahead) (Nat.le_of_succ_le hfuel) htick.symm hd

end Run

theorem Session.perform_of_ticks {s : Session} {x : Act (List Value)} {r : Except Value (List Value)}
    (h : Ticks n (Machine.start s.store x, s.world) (m, w)) (hend : m.outcome? = some r) (hn : n ≤ RunLimits.interval) :
    s.perform x = some (r.mapError failureOf, ⟨m.store, w, s.limits⟩) := by
  obtain ⟨result, run, hfinish, rfl, rfl⟩ :=
    Run.finish_of_ticks (fun _ => 0) (Guard.ofLimits s.limits false) {} RunLimits.interval 0 h hend hn
      (Nat.le_trans hn (show RunLimits.interval ≤ pauseLimit - 1 by decide))
  have hlimit : pauseLimit = pauseLimit - 1 + 1 := rfl
  rw [perform, hlimit, hfinish]
  dsimp only
  rw [hend]
  rfl

/-! ## Acts that end -/

namespace Act

variable {α β γ : Type}

theorem bind_assoc (x : Act α) (f : α → Act β) (g : β → Act γ) :
    (x.bind f).bind g = x.bind fun a => (f a).bind g := by
  induction x with
  | done a => rfl
  | raise e => rfl
  | read k ih => exact congrArg read (funext ih)
  | change f k ih => exact congrArg (change f) (funext ih)
  | call f o args k ih => exact congrArg (call f o args) (funext ih)
  | protect f args k ih => exact congrArg (protect f args) (funext ih)
  | ask r k ih => exact congrArg (ask r) (funext ih)
  | place n k ih => exact congrArg (place n) (funext ih)

theorem bind_done (x : Act α) : x.bind .done = x := by
  induction x with
  | done a => rfl
  | raise e => rfl
  | read k ih => exact congrArg read (funext ih)
  | change f k ih => exact congrArg (change f) (funext ih)
  | call f o args k ih => exact congrArg (call f o args) (funext ih)
  | protect f args k ih => exact congrArg (protect f args) (funext ih)
  | ask r k ih => exact congrArg (ask r) (funext ih)
  | place n k ih => exact congrArg (place n) (funext ih)

/-- What a machine goes on with after an act. -/
def continued (m : Machine) (f : α → Act (List Value)) : Except Value α → Machine
  | .ok a => m.acting (f a)
  | .error e => { m with control := .raise e }

/-- From a store and a world, the act comes to a result within so many ticks, whatever goes on from there, on every
machine that has room for so many calls. -/
def Ends (room : Nat) (x : Act α) (s : Store) (w : World) (n : Nat) (r : Except Value α) (s' : Store)
    (w' : World) : Prop :=
  ∀ (m : Machine) (f : α → Act (List Value)), m.store = s → m.depth < depthLimit → m.inner + room < innerLimit →
    Ticks n (m.acting (x.bind f), w) (continued { m with store := s' } f r, w')

namespace Ends

variable {x : Act α} {s s' s'' : Store} {w w' w'' : World} {room n k : Nat} {r : Except Value α} {r' : Except Value β}

theorem done (a : α) (s : Store) (w : World) : Ends room (.done a) s w 0 (.ok a) s w := by
  rintro m f rfl - -
  exact .refl 0 _

theorem raise (e : Value) (s : Store) (w : World) : Ends room (.raise e : Act α) s w 1 (.error e) s w := by
  rintro m f rfl - -
  exact .step (.refl 0 _)

theorem read {k : Store → Act α} (h : Ends room (k s) s w n r s' w') : Ends room (.read k) s w (n + 1) r s' w' := by
  rintro m f rfl hdepth hinner
  exact .step (h m f rfl hdepth hinner)

theorem change {g : Store → Value × Store} {k : Value → Act α} (h : Ends room (k (g s).1) (g s).2 w n r s' w') :
    Ends room (.change g k) s w (n + 1) r s' w' := by
  rintro m f rfl hdepth hinner
  exact .step (h { m with store := (g m.store).2 } f rfl hdepth hinner)

theorem ask {q : Request} {k : Reply → Act α} (h : Ends room (k (hostReply w q).1) s (hostReply w q).2 n r s' w') :
    Ends room (.ask q k) s w (n + 1) r s' w' := by
  rintro m f rfl hdepth hinner
  exact .step (h m f rfl hdepth hinner)

theorem bind {g : α → Act β} {a : α} (h : Ends room x s w n (.ok a) s' w') (h' : Ends room (g a) s' w' k r' s'' w'') :
    Ends room (x.bind g) s w (n + k) r' s'' w'' := by
  rintro m f hm hdepth hinner
  rw [bind_assoc]
  exact (h m _ hm hdepth hinner).trans (h' { m with store := s' } f rfl hdepth hinner)

/-- What goes on from a result only to change it does not take a tick. -/
theorem map (h : Ends room x s w n r s' w') (g : α → β) :
    Ends room (x.bind fun a => .done (g a)) s w n (r.map g) s' w' := by
  rintro m f hm hdepth hinner
  rw [bind_assoc]
  have hticks := h m (fun a => f (g a)) hm hdepth hinner
  cases r <;> exact hticks

/-- The values that data from the host become take a tick each. -/
theorem ofData (ds : List Datum) (s : Store) (w : World) :
    Ends room (Act.ofData ds) s w ds.length (.ok (s.ofDatums ds).1) (s.ofDatums ds).2 w := by
  induction ds generalizing s with
  | nil => exact done [] s w
  | cons d ds ih => exact change ((ih (s.ofDatum d).2).map _)

theorem request_ok {q : Request} {ds : List Datum} (h : hostReply w q = (.ok ds, w')) :
    Ends room (Act.request q) s w (ds.length + 1) (.ok (s.ofDatums ds).1) (s.ofDatums ds).2 w' := by
  refine ask ?_
  rw [h]
  exact ofData ds s w'

theorem request_error {q : Request} {f : HostFailure} (h : hostReply w q = (.error f, w')) :
    Ends room (Act.request q : Act (List Value)) s w 2 (.error (.failure f)) s w' := by
  refine ask ?_
  rw [h]
  exact raise _ _ _

/-- A call of what starts a library function. -/
theorem invoke_library {v : Value} {y : Act (List Value)} {args : List Value} {origin : Origin}
    {r : Except Value (List Value)}
    (henter : ∀ m : Machine, m.store = s → m.depth < depthLimit → m.inner < innerLimit →
      m.enter v origin args = m.startLibrary y)
    (h : Ends room y s w n r s' w') : Ends (room + 1) (Act.invoke v args origin) s w (n + 4) r s' w' := by
  rintro m f rfl hdepth hinner
  let inside : Machine := { m with frames := .library :: .resume f :: m.frames, inner := m.inner + 1 }
  have hstart : tick (m.acting ((Act.invoke v args origin).bind f), w) = (inside.acting y, w) := by
    have hroom : m.inner + 1 < innerLimit := by omega
    let waiting : Machine := (m.acting ((Act.invoke v args origin).bind f)).pushFrame (.resume f)
    exact congrArg (·, w) (henter waiting rfl hdepth hroom)
  have hinside := h inside .done rfl hdepth (by simp only [inside]; omega)
  rw [bind_done] at hinside
  refine .step ?_
  rw [hstart]
  refine hinside.trans ?_
  cases r with
  | ok vs => exact .step (.step (.step (.refl 0 _)))
  | error e => exact .step (.step (.refl 1 _))

/-- A call of a method of the host. -/
theorem invoke_member {p : Nat} {namespaceName : String} {member : Member} {args : List Value} {origin : Origin}
    {r : Except Value (List Value)} (hp : s.closures[p]? = some (.member namespaceName member))
    (h : Ends room (callMember namespaceName member args) s w n r s' w') :
    Ends (room + 1) (Act.invoke (.closure p) args origin) s w (n + 4) r s' w' := by
  apply invoke_library ?_ h
  rintro m rfl hdepth hinner
  exact Machine.enter_member hdepth hinner hp

/-- A call of a library function. -/
theorem invoke_builtin {b : Builtin} {args : List Value} {origin : Origin} {r : Except Value (List Value)}
    (h : Ends room (Library.perform ⟨b, origin⟩ args) s w n r s' w') :
    Ends (room + 1) (Act.invoke (.builtin b) args origin) s w (n + 4) r s' w' := by
  apply invoke_library ?_ h
  rintro m - hdepth hinner
  exact Machine.enter_builtin hdepth hinner

end Ends

end Act

namespace Session

/-- An act that ends within an interval of the guard ends so when the host performs it. -/
theorem performOne_of_ends {s : Session} {x : Act Value} {r : Except Value Value} {store : Store}
    (h : x.Ends 1 s.store s.world n r store w) (hn : n + 2 ≤ RunLimits.interval) :
    s.performOne x = some (r.mapError failureOf, ⟨store, w, s.limits⟩) := by
  have hticks := (h.map fun v => [v]) (Machine.start s.store (.done [])) .done rfl (show 0 < depthLimit by decide)
    (show 0 + 1 < innerLimit by decide)
  rw [Act.bind_done] at hticks
  cases r with
  | ok v =>
    have hend := hticks.trans (.step (.step (.refl 0 _)))
    rw [performOne, perform_of_ticks hend rfl hn]
    rfl
  | error e =>
    have hend := hticks.trans (.step (.refl 1 _))
    rw [performOne, perform_of_ticks hend rfl hn]
    rfl

end Session

namespace Operation

theorem index_object (origin : Origin) (p : Nat) (key : Value) :
    index origin (.object p) key = .read fun s =>
      match s.objects[p]? with
      | some (.space name hidden?) => member name hidden? key
      | some (.grid t) => .done (gridMember t key)
      | none => .done .nil := rfl

theorem setIndex_object (origin : Origin) (p : Nat) (key v : Value) :
    setIndex origin (.object p) key v = .read fun s =>
      match s.objects[p]? with
        | some (.space name _) => setMember name key v
        | _ => typeFault "index" (.object p) origin := rfl

end Operation

end Scriptorium.Script
