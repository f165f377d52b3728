import Scriptorium.Proofs.Script.HostGate

/-!
# Two ways to call a method

A script calls a method of a host object as `object.key(args)` or as `object:key(args)`; the second passes the
object itself in front of the arguments, and a host object in front is dropped. So the two ways agree as long as
the first argument is no host object. Where it is one, the first way loses it (`call_styles`).
-/

namespace Scriptorium.Script.Session

open Act

variable {s : Session} {p : Nat} {name k : String} {hidden? : Option Nat} {m : Member} {args : List Value}

/-! ## Calling through a key -/

/-- The session after a method was read from the object of a namespace. -/
def withMethod (s : Session) (name : String) (m : Member) : Session :=
  { s with store := (s.store.newClosure (.member name m)).2 }

theorem ends_index_method (hp : s.store.objects[p]? = some (.space name hidden?))
    (hm : s.store.registry.resolve name k = some m) (hkind : m.kind = .method) :
    Ends 1 (Operation.index .unknown (.object p) (.ofString k)) s.store s.world 3
      (.ok (.closure s.store.closures.size)) (s.withMethod name m).store s.world := by
  rw [Operation.index_object]
  refine .read ?_
  rw [hp]
  refine .read ?_
  simp only [keyText_ofString, HostObject.reading, hm, hkind]
  exact .change (.done _ _ _)

/-- Calling a method through its key is reading it and calling what was read. -/
theorem callMember_eq_callAt (hp : s.store.objects[p]? = some (.space name hidden?))
    (hm : s.store.registry.resolve name k = some m) (hkind : m.kind = .method) (args : List Value) :
    s.callMember (.object p) k args = (s.withMethod name m).callAt .unknown s.store.closures.size args := by
  have hclosure : (s.withMethod name m).store.closures[s.store.closures.size]? = some (.member name m) :=
    Array.getElem?_push_size
  obtain ⟨n, r, store, w, hn, hends, -⟩ := exists_ends_invoke .unknown args hclosure
  have hcall := hends.map Operation.firstOf
  rw [callAt, performOne_of_ends hcall (by omega)]
  exact performOne_of_ends ((ends_index_method hp hm hkind).bind hcall) (by omega)

/-! ## The two ways -/

/-- What a call of a method that is given data comes to in a session. -/
def answered (s : Session) (name : String) (m : Member) (data : List Datum) : Except HostFailure Value × Session :=
  match HostObject.call s.world name m data with
  | (.ok ds, w) =>
    (.ok (Operation.firstOf (s.store.ofDatums ds).1), { s with store := (s.store.ofDatums ds).2, world := w })
  | (.error f, w) => (.error f, { s with world := w })

theorem callMember_eq (hp : s.store.objects[p]? = some (.space name hidden?))
    (hm : s.store.registry.resolve name k = some m) (hkind : m.kind = .method) (args : List Value) :
    s.callMember (.object p) k args =
      some ((s.withMethod name m).answered name m (HostObject.withoutSelf (args.map s.store.datum))) := by
  rw [callMember_eq_callAt hp hm hkind, callAt_method .unknown args Array.getElem?_push_size]
  rfl

theorem datum_object (hp : s.store.objects[p]? = some (.space name hidden?)) :
    s.store.datum (.object p) = .hostObject name := by
  simp only [Store.datum, Store.datumIn, hp]

/-- A value that is the object of a namespace. -/
def IsHostObject (s : Session) (v : Value) : Prop :=
  ∃ p name hidden?, v = .object p ∧ s.store.objects[p]? = some (.space name hidden?)

theorem isHostObject_of_datum {v : Value} (h : s.store.datum v = .hostObject name) : s.IsHostObject v := by
  cases v with
  | object p =>
    simp only [Store.datum, Store.datumIn] at h
    rcases hobject : s.store.objects[p]? with _ | ⟨name, hidden?⟩ | _
    · simp [hobject] at h
    · exact ⟨p, name, hidden?, rfl, hobject⟩
    · simp [hobject] at h
  | _ => cases h

theorem withoutSelf_map_datum (h : ∀ v ∈ args.head?, ¬ s.IsHostObject v) :
    HostObject.withoutSelf (args.map s.store.datum) = args.map s.store.datum := by
  cases args with
  | nil => rfl
  | cons v args =>
    rw [List.map_cons]
    unfold HostObject.withoutSelf
    split
    · next heq => exact absurd (isHostObject_of_datum (List.cons.inj heq).1) (h v rfl)
    · rfl

theorem withoutSelf_map_datum_cons {v : Value} (hv : s.IsHostObject v) (args : List Value) :
    HostObject.withoutSelf ((v :: args).map s.store.datum) = args.map s.store.datum := by
  obtain ⟨p, name, hidden?, rfl, hp⟩ := hv
  rw [List.map_cons, datum_object hp]
  rfl

/-- The host is given all arguments of `object:key(args)`, and those of `object.key(args)` without a host object in
front. So both ways come to the same as long as the first argument is no host object, and one that is a host object
is lost: with it, `object.key` does what `object:key` does without it. -/
theorem call_styles (hp : s.store.objects[p]? = some (.space name hidden?))
    (hm : s.store.registry.resolve name k = some m) (hkind : m.kind = .method) (args : List Value) :
    s.callMember (.object p) k args =
      some ((s.withMethod name m).answered name m (HostObject.withoutSelf (args.map s.store.datum))) ∧
    s.callMember (.object p) k (.object p :: args) =
      some ((s.withMethod name m).answered name m (args.map s.store.datum)) ∧
    ((∀ v ∈ args.head?, ¬ s.IsHostObject v) →
      s.callMember (.object p) k args = s.callMember (.object p) k (.object p :: args)) ∧
    (∀ v, s.IsHostObject v →
      s.callMember (.object p) k (v :: args) = s.callMember (.object p) k (.object p :: args)) := by
  have hcall := callMember_eq hp hm hkind
  have hself : s.IsHostObject (.object p) := ⟨p, name, hidden?, rfl, hp⟩
  refine ⟨hcall args, ?_, fun hfirst => ?_, fun v hv => ?_⟩
  · rw [hcall, withoutSelf_map_datum_cons hself]
  · rw [hcall, hcall, withoutSelf_map_datum_cons hself, withoutSelf_map_datum hfirst]
  · rw [hcall, hcall, withoutSelf_map_datum_cons hself, withoutSelf_map_datum_cons hv]

/-- A session with the objects of `host` and `ui`. -/
def ofHostAndUi : Session :=
  { store := { objects := #[.space "host" none, .space "ui" none], registry := RegistryBuilder.standard.build }
    world := { now := default }
    limits := {} }

/-- A number and a host object in front of it, passed to `host.log` in both ways. -/
theorem call_styles_log :
    ofHostAndUi.callMember (.object 0) "log" [.integer 1] =
      ofHostAndUi.callMember (.object 0) "log" [.object 0, .integer 1] ∧
    ofHostAndUi.callMember (.object 0) "log" [.object 1, .integer 1] =
      ofHostAndUi.callMember (.object 0) "log" [.object 0, .integer 1] := by
  obtain ⟨-, -, hplain, hobject⟩ := call_styles (s := ofHostAndUi) (p := 0) (k := "log") rfl rfl rfl [.integer 1]
  refine ⟨hplain ?_, hobject (.object 1) ⟨1, "ui", none, rfl, rfl⟩⟩
  rintro v ⟨⟩ ⟨p, name, hidden?, hv, -⟩
  cases hv

/-- `host.log(ui)` logs an empty message, `host:log(ui)` what stands for `ui`. -/
theorem log_loses_object :
    let logged (args : List Value) : Option (List String) :=
      (ofHostAndUi.callMember (.object 0) "log" args).map fun (_, s) => s.world.log.entries.toList.map (·.message)
    logged [.object 1] = some [""] ∧ logged [.object 0, .object 1] = some ["userdata"] := by
  intro logged
  have hcall := callMember_eq (s := ofHostAndUi) (p := 0) (k := "log") rfl rfl rfl
  simp only [logged, hcall]
  constructor <;> rfl

end Scriptorium.Script.Session
