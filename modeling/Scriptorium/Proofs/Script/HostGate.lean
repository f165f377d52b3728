import Scriptorium.Proofs.Disk.ReadBack
import Scriptorium.Proofs.Script.HostAccess

/-!
# The gate of host objects

The registry stands between scripts and the host: scripts reach registered members only, and documents only through
the writable content and through saving (`host_objects_gated`).
-/

namespace Scriptorium

theorem Registry.name_of_resolve {r : Registry} {namespaceName key : String} {m : Member}
    (h : r.resolve namespaceName key = some m) : m.name = key := by
  obtain ⟨ns, -, hfind⟩ := Option.bind_eq_some_iff.1 h
  rw [Namespace.member?] at hfind
  simpa using List.find?_some hfind

namespace HostObject

variable {r : Registry} {namespaceName key : String} {m : Member}

theorem assignable_eq_ok : assignable r namespaceName key = .ok m ↔
    r.resolve namespaceName key = some m ∧ m.kind = .property ∧ m.writable = true := by
  unfold assignable
  cases r.resolve namespaceName key with
  | none => simp
  | some m' =>
    dsimp only
    split
    · next h =>
      constructor
      · rintro hok
        obtain rfl := Except.ok.inj hok
        exact ⟨rfl, h⟩
      · rintro ⟨hm, -⟩
        rw [Option.some.inj hm]
    · next h =>
      refine ⟨nofun, ?_⟩
      rintro ⟨hm, hassignable⟩
      exact absurd (Option.some.inj hm ▸ hassignable) h

end HostObject

namespace Script

/-- A text or a number. -/
def Value.isTextOrNumber : Value → Bool
  | .text _ | .integer _ | .float _ => true
  | _ => false

theorem isTextOrNumber_of_contentOf {s : Store} {v : Value} {text : String}
    (h : HostObject.contentOf (s.datum v) = .ok text) : v.isTextOrNumber = true := by
  cases v with
  | text | integer | float => rfl
  | object p =>
    simp only [Store.datum, Store.datumIn] at h
    rcases hobject : s.objects[p]? with _ | _ | _ <;> rw [hobject] at h <;> cases h
  | _ => cases h

/-! ## What the host makes -/

namespace Store

mutual

theorem ofDatum_keeps : ∀ (d : Datum) (s : Store),
    (ofDatum d s).2.registry = s.registry ∧ (ofDatum d s).2.closures = s.closures
  | .nil, _ | .function, _ | .thread, _ | .boolean _, _ | .integer _, _ | .number _, _ | .text _, _ | .failure _, _
  | .grid _, _ | .hostObject _, _ => ⟨rfl, rfl⟩
  | .list items, s => ofDatums_keeps items s
  | .record fields, s => ofFields_keeps fields s

/-- The values that data become come with new tables and objects, but with no methods. -/
theorem ofDatums_keeps : ∀ (ds : List Datum) (s : Store),
    (ofDatums ds s).2.registry = s.registry ∧ (ofDatums ds s).2.closures = s.closures
  | [], _ => ⟨rfl, rfl⟩
  | d :: ds, s => by
    obtain ⟨hregistry, hclosures⟩ := ofDatum_keeps d s
    obtain ⟨hregistry', hclosures'⟩ := ofDatums_keeps ds (ofDatum d s).2
    exact ⟨hregistry'.trans hregistry, hclosures'.trans hclosures⟩

theorem ofFields_keeps : ∀ (fields : List (String × Datum)) (s : Store),
    (ofFields fields s).2.registry = s.registry ∧ (ofFields fields s).2.closures = s.closures
  | [], _ => ⟨rfl, rfl⟩
  | (_, d) :: fields, s => by
    obtain ⟨hregistry, hclosures⟩ := ofDatum_keeps d s
    obtain ⟨hregistry', hclosures'⟩ := ofFields_keeps fields (ofDatum d s).2
    exact ⟨hregistry'.trans hregistry, hclosures'.trans hclosures⟩

end

end Store

theorem keyText_ofString (s : Store) (event k : String) : Operation.keyText s event (.ofString k) = .ok k := by
  have htext : HostObject.asText (s.datum (.ofString k)) = .ok k := by
    simp only [Store.datum, Store.datumIn, Value.ofString, HostObject.asText, HostObject.utf8, fromUTF8?_toUTF8]
  rw [Operation.keyText, htext]

/-! ## Steps -/

variable {s s' : Session} {p : Nat} {name k : String} {hidden? : Option Nat} {key v : Value} {m : Member}
  {origin : Origin} {f : HostFailure} {r : Except HostFailure Value} {args : List Value}

namespace Session

/-- All methods of host objects that the session has are registered. -/
def OnlyRegistered (s : Session) : Prop :=
  ∀ (p : Nat) (name : String) (m : Member), s.store.closures[p]? = some (.member name m) →
    s.store.registry.resolve name m.name = some m ∧ m.kind = .method

/-- Reading leaves the world as it is; the one thing that it can add to the methods is the registered method that
was read. -/
theorem readAt_cases (hp : s.store.objects[p]? = some (.space name hidden?)) (origin : Origin) (key : Value) :
    ∃ r store, s.readAt origin p key = some (r, { s with store }) ∧ store.registry = s.store.registry ∧
      (store.closures = s.store.closures ∨ ∃ m, s.store.registry.resolve name m.name = some m ∧ m.kind = .method ∧
        store.closures = s.store.closures.push (Closure.member name m)) := by
  cases hkey : Operation.keyText s.store "__index" key with
  | error f => exact ⟨_, _, readAt_refused hp hkey, rfl, .inl rfl⟩
  | ok k =>
    cases hm : s.store.registry.resolve name k with
    | some m =>
      cases hkind : m.kind with
      | property =>
        have hread := readAt_property origin hp hkey hm hkind
        cases hget : HostObject.get s.world name m with
        | ok d =>
          rw [hget] at hread
          obtain ⟨hregistry, hclosures⟩ := Store.ofDatum_keeps d s.store
          exact ⟨_, _, hread, hregistry, .inl hclosures⟩
        | error f =>
          rw [hget] at hread
          exact ⟨_, _, hread, rfl, .inl rfl⟩
      | method =>
        have hresolve := Registry.name_of_resolve hm ▸ hm
        exact ⟨_, _, readAt_method hp hkey hm hkind, rfl, .inr ⟨m, hresolve, hkind, rfl⟩⟩
    | none =>
      cases hv : Operation.hiddenValue s.store hidden? k with
      | some v => exact ⟨_, _, readAt_hidden hp hkey hm hv, rfl, .inl rfl⟩
      | none => exact ⟨_, _, readAt_unknown hp hkey hm hv, rfl, .inl rfl⟩

/-- An assignment that the object of a namespace takes: a text or a number, to a writable `content` of the active
document. -/
structure TakesContent (s : Session) (name : String) (key v : Value) : Prop where
  object : name = "doc"
  key : Operation.keyText s.store "__newindex" key = .ok "content"
  writable : ∃ m, s.store.registry.resolve "doc" "content" = some m ∧ m.kind = .property ∧ m.writable = true
  value : v.isTextOrNumber = true
  active : s.world.desk.hasDocument = true

/-- An assignment either puts a text or a number into the active document, or fails and changes nothing. -/
theorem assignAt_cases (hp : s.store.objects[p]? = some (.space name hidden?)) (origin : Origin) (key v : Value) :
    (s.TakesContent name key v ∧ ∃ text desk, HostObject.contentOf (s.store.datum v) = .ok text ∧
      s.world.desk.writeContent text = .ok desk ∧
      s.assignAt origin p key v = some (.ok .nil, { s with world := { s.world with desk } })) ∨
    ∃ f, s.assignAt origin p key v = some (.error f, s) := by
  cases hkey : Operation.keyText s.store "__newindex" key with
  | error f => exact .inr ⟨f, assignAt_refused hp hkey⟩
  | ok k =>
    cases hm : HostObject.assignable s.store.registry name k with
    | error f => exact .inr ⟨f, assignAt_unassignable hp hkey hm⟩
    | ok m =>
      have hassign := assignAt_property origin v hp hkey hm
      rcases HostObject.set_cases s.world name m (s.store.datum v) with
        ⟨text, desk, rfl, hname, htext, hdesk, hset⟩ | ⟨f, hset⟩
      · rw [hset] at hassign
        obtain ⟨hresolve, hassignable⟩ := HostObject.assignable_eq_ok.1 hm
        obtain rfl : "content" = k := hname.symm.trans (Registry.name_of_resolve hresolve)
        have hactive := (s.world.desk.writeContent_isOk_iff text).1 ⟨desk, hdesk⟩
        have htakes : s.TakesContent "doc" key v :=
          ⟨rfl, hkey, ⟨m, hresolve, hassignable⟩, isTextOrNumber_of_contentOf htext, hactive⟩
        exact .inl ⟨htakes, text, desk, htext, hdesk, hassign⟩
      · rw [hset] at hassign
        exact .inr ⟨f, hassign⟩

/-- A call of a method adds no method, and changes the documents only by saving the active one. -/
theorem callAt_effect (hp : s.store.closures[p]? = some (.member name m)) (h : s.callAt origin p args = some (r, s')) :
    s'.store.registry = s.store.registry ∧ s'.store.closures = s.store.closures ∧
      (s'.world.desk = s.world.desk ∨ (name = "doc" ∧ m.name = "save" ∧ (∃ v, r = .ok v) ∧
        ∃ n document path, s.world.desk.document? n = some document ∧
          s'.world.desk = s.world.desk.update n fun _ => { document with path? := some path, dirty := false })) := by
  rw [callAt_method origin args hp] at h
  have hdesk := HostObject.desk_call s.world name m (HostObject.withoutSelf (args.map s.store.datum))
  cases hcall : HostObject.call s.world name m (HostObject.withoutSelf (args.map s.store.datum)) with
  | mk result w =>
    rw [hcall] at h hdesk
    cases result with
    | error f =>
      obtain ⟨-, rfl⟩ := Prod.mk.inj (Option.some.inj h)
      exact ⟨rfl, rfl, hdesk.imp_right fun hsaved => nomatch hsaved.2.2.1⟩
    | ok ds =>
      obtain ⟨rfl, rfl⟩ := Prod.mk.inj (Option.some.inj h)
      obtain ⟨hregistry, hclosures⟩ := Store.ofDatums_keeps ds s.store
      refine ⟨hregistry, hclosures, hdesk.imp_right ?_⟩
      rintro ⟨hdoc, hsave, -, path?, hsaved⟩
      obtain ⟨n, document, path, -, hsaved⟩ := Desk.save_eq_ok hsaved
      exact ⟨hdoc, hsave, ⟨_, rfl⟩, n, document, path, hsaved⟩

/-! ## Runs -/

/-- What a script has done with a host object; of an assignment and a call, whether it succeeded. -/
inductive Use where
  | read (name : String)
  | assign (name : String) (key? : Option String) (succeeded : Bool)
  | call (name : String) (m : Member) (succeeded : Bool)
  deriving DecidableEq

/-- One thing that a script does: it uses a host object, or it goes on by itself, which makes no methods of host
objects. -/
inductive Step : Session → Option Use → Session → Prop where
  | read {s s' : Session} {p : Nat} {name : String} {hidden? : Option Nat} {origin : Origin} {key : Value}
      {r : Except HostFailure Value} (object : s.store.objects[p]? = some (.space name hidden?))
      (done : s.readAt origin p key = some (r, s')) : Step s (some (.read name)) s'
  | assign {s s' : Session} {p : Nat} {name : String} {hidden? : Option Nat} {origin : Origin} {key v : Value}
      {r : Except HostFailure Value} (object : s.store.objects[p]? = some (.space name hidden?))
      (done : s.assignAt origin p key v = some (r, s')) :
      Step s (some (.assign name (Operation.keyText s.store "__newindex" key).toOption r.isOk)) s'
  | call {s s' : Session} {p : Nat} {name : String} {m : Member} {origin : Origin} {args : List Value}
      {r : Except HostFailure Value} (method : s.store.closures[p]? = some (.member name m))
      (done : s.callAt origin p args = some (r, s')) : Step s (some (.call name m r.isOk)) s'
  | own {s : Session} {store : Store} (registry : store.registry = s.store.registry)
      (methods : ∀ (p : Nat) (name : String) (m : Member), store.closures[p]? = some (.member name m) →
        s.store.closures[p]? = some (.member name m)) : Step s none { s with store }

/-- What a script comes to, with its uses of host objects. -/
inductive Reached (s₀ : Session) : List Use → Session → Prop where
  | start : Reached s₀ [] s₀
  | step {uses : List Use} {use? : Option Use} {s s' : Session} (before : Reached s₀ uses s)
      (last : Step s use? s') : Reached s₀ (uses ++ use?.toList) s'

variable {s₀ : Session} {use? : Option Use} {uses : List Use}

theorem OnlyRegistered.step (h : OnlyRegistered s) (hs : Step s use? s') : OnlyRegistered s' := by
  intro p name m hp
  cases hs with
  | read hobject done =>
    obtain ⟨_, store, heq, hregistry, hmethods⟩ := readAt_cases hobject _ _
    obtain ⟨-, rfl⟩ := Prod.mk.inj (Option.some.inj (heq.symm.trans done))
    rw [hregistry]
    rcases hmethods with hsame | ⟨read, hread, hkind, hpush⟩
    · exact h p name m (hsame ▸ hp)
    · rw [hpush, Array.getElem?_push] at hp
      split at hp
      · obtain ⟨rfl, rfl⟩ := Closure.member.inj (Option.some.inj hp)
        exact ⟨hread, hkind⟩
      · exact h p name m hp
  | assign hobject done =>
    rcases assignAt_cases hobject _ _ _ with ⟨-, text, desk, -, -, heq⟩ | ⟨f, heq⟩ <;>
    · obtain ⟨-, rfl⟩ := Prod.mk.inj (Option.some.inj (heq.symm.trans done))
      exact h p name m hp
  | call hmethod done =>
    obtain ⟨hregistry, hclosures, -⟩ := callAt_effect hmethod done
    rw [hregistry]
    exact h p name m (hclosures ▸ hp)
  | own registry methods =>
    rw [registry]
    exact h p name m (methods p name m hp)

/-- All that a step can do to the documents. -/
theorem Step.documents (h : Step s use? s') :
    s'.world.desk = s.world.desk ∨
    (use? = some (.assign "doc" (some "content") true) ∧
      ∃ n text, s'.world.desk = s.world.desk.update n (·.setContent text)) ∨
    (∃ m, use? = some (.call "doc" m true) ∧ m.name = "save" ∧
      ∃ n document path, s.world.desk.document? n = some document ∧
        s'.world.desk = s.world.desk.update n fun _ => { document with path? := some path, dirty := false }) := by
  cases h with
  | read hobject done =>
    obtain ⟨_, store, heq, -⟩ := readAt_cases hobject _ _
    obtain ⟨-, rfl⟩ := Prod.mk.inj (Option.some.inj (heq.symm.trans done))
    exact .inl rfl
  | assign hobject done =>
    rcases assignAt_cases hobject _ _ _ with ⟨htakes, text, desk, -, hdesk, heq⟩ | ⟨f, heq⟩
    · obtain ⟨rfl, rfl⟩ := Prod.mk.inj (Option.some.inj (heq.symm.trans done))
      obtain ⟨n, -, hupdate⟩ := Desk.writeContent_eq_ok hdesk
      refine .inr (.inl ⟨?_, n, text, hupdate⟩)
      rw [htakes.object, htakes.key]
      rfl
    · obtain ⟨-, rfl⟩ := Prod.mk.inj (Option.some.inj (heq.symm.trans done))
      exact .inl rfl
  | call hmethod done =>
    obtain ⟨-, -, hsame | ⟨rfl, hname, ⟨v, rfl⟩, hsaved⟩⟩ := callAt_effect hmethod done
    · exact .inl hsame
    · exact .inr (.inr ⟨_, rfl, hname, hsaved⟩)
  | own => exact .inl rfl

theorem Reached.onlyRegistered (h : Reached s₀ uses s) (h₀ : OnlyRegistered s₀) : OnlyRegistered s := by
  induction h with
  | start => exact h₀
  | step _ last ih => exact ih.step last

/-- Contents change only where a script assigns one. -/
theorem Reached.keepsContents (h : Reached s₀ uses s) (hnone : .assign "doc" (some "content") true ∉ uses) :
    s₀.world.desk.KeepsContents s.world.desk := by
  induction h with
  | start => exact fun _ => rfl
  | step before last ih =>
    rw [List.mem_append, not_or] at hnone
    have hbefore := ih hnone.1
    rcases last.documents with hsame | ⟨rfl, -⟩ | ⟨m, -, -, n, document, path, hdocument, hupdate⟩
    · rwa [hsame]
    · exact absurd (List.mem_singleton_self _) hnone.2
    · rw [hupdate]
      exact fun i => (Desk.keepsContents_update hdocument rfl i).trans (hbefore i)

/-- Paths change, and flags are cleared, only where a script saves the document. -/
theorem Reached.keepsUnsaved (h : Reached s₀ uses s) (hnone : ∀ m, .call "doc" m true ∈ uses → m.name ≠ "save") :
    s₀.world.desk.KeepsUnsaved s.world.desk := by
  induction h with
  | start => exact ⟨fun _ => rfl, fun _ => id⟩
  | step before last ih =>
    have hbefore := ih fun m hm => hnone m (List.mem_append_left _ hm)
    rcases last.documents with hsame | ⟨rfl, n, text, hupdate⟩ | ⟨m, rfl, hsave, -⟩
    · rwa [hsame]
    · rw [hupdate]
      exact hbefore.trans (Desk.keepsUnsaved_setContent _ n text)
    · exact absurd hsave (hnone m (List.mem_append_right _ (List.mem_singleton_self _)))

/-! ## The gate -/

/-- What reading a key gives is decided by the registry: a registered property is asked of the host, a registered
method becomes a function, and only what is not registered is looked up in the table that the object hides. -/
structure ReadGated (s : Session) (origin : Origin) (p : Nat) (name : String) (hidden? : Option Nat) (key : Value) :
    Prop where
  property : ∀ k m, Operation.keyText s.store "__index" key = .ok k → s.store.registry.resolve name k = some m →
    m.kind = .property → s.readAt origin p key = some (
      match HostObject.get s.world name m with
      | .ok d => (.ok (s.store.ofDatum d).1, { s with store := (s.store.ofDatum d).2 })
      | .error f => (.error f, s))
  method : ∀ k m, Operation.keyText s.store "__index" key = .ok k → s.store.registry.resolve name k = some m →
    m.kind = .method → s.readAt origin p key =
      some (.ok (s.store.newClosure (.member name m)).1, { s with store := (s.store.newClosure (.member name m)).2 })
  hidden : ∀ k v, Operation.keyText s.store "__index" key = .ok k → s.store.registry.resolve name k = none →
    Operation.hiddenValue s.store hidden? k = some v → s.readAt origin p key = some (.ok v, s)
  unknown : ∀ k, Operation.keyText s.store "__index" key = .ok k → s.store.registry.resolve name k = none →
    Operation.hiddenValue s.store hidden? k = none →
      s.readAt origin p key = some (.error (HostObject.noMember name k), s)
  /-- A key that is no text and no number. -/
  refused : ∀ f, Operation.keyText s.store "__index" key = .error f → s.readAt origin p key = some (.error f, s)

theorem readGated (hp : s.store.objects[p]? = some (.space name hidden?)) (origin : Origin) (key : Value) :
    ReadGated s origin p name hidden? key where
  property _ _ hkey hm hkind := readAt_property origin hp hkey hm hkind
  method _ _ hkey hm hkind := readAt_method hp hkey hm hkind
  hidden _ _ hkey hm hv := readAt_hidden hp hkey hm hv
  unknown _ hkey hm hv := readAt_unknown hp hkey hm hv
  refused _ hkey := readAt_refused hp hkey

/-- An assignment that the object does not take fails and leaves the whole session as it is; one that it takes
succeeds, if what is assigned is a number or a text in UTF-8. -/
structure AssignGated (s : Session) (origin : Origin) (p : Nat) (name : String) (key v : Value) : Prop where
  refused : ¬ s.TakesContent name key v → ∃ f, s.assignAt origin p key v = some (.error f, s)
  taken : s.TakesContent name key v → ∀ text, HostObject.contentOf (s.store.datum v) = .ok text →
    ∃ desk, s.world.desk.writeContent text = .ok desk ∧
      s.assignAt origin p key v = some (.ok .nil, { s with world := { s.world with desk } })

theorem assignGated (hp : s.store.objects[p]? = some (.space name hidden?)) (origin : Origin) (key v : Value) :
    AssignGated s origin p name key v where
  refused hnot := by
    rcases assignAt_cases hp origin key v with ⟨htakes, -⟩ | hfails
    · exact absurd htakes hnot
    · exact hfails
  taken := by
    rintro ⟨rfl, hkey, ⟨m, hm, hkind, hwritable⟩, -, hactive⟩ text htext
    obtain ⟨desk, hdesk⟩ := (s.world.desk.writeContent_isOk_iff text).2 hactive
    refine ⟨desk, hdesk, ?_⟩
    rw [assignAt_property origin v hp hkey (HostObject.assignable_eq_ok.2 ⟨hm, hkind, hwritable⟩),
      HostObject.set_content (Registry.name_of_resolve hm) htext hdesk]
    rfl

/-- A session with the host objects of a registry begins without methods. -/
theorem onlyRegistered_withHost (registry : Registry) (world : World) (limits : RunLimits) :
    OnlyRegistered (withHost registry world limits) := by
  have hlibrary : (Library.initialStore registry).closures = #[] := by
    unfold Library.initialStore
    refine List.foldlRecOn (motive := fun s : Store => s.closures = #[]) Builtin.libraries _ rfl ?_
    intro s hs library _
    dsimp only [Library.addLibrary]
    split <;> exact hs
  have hobjects : (withHost registry world limits).store.closures = #[] :=
    List.foldlRecOn (motive := fun s : Store => s.closures = #[]) (reachable registry).1 installObject hlibrary
      fun s hs ns _ => hs
  intro p name m hp
  rw [hobjects] at hp
  cases hp

/-- Whatever a script does with host objects, under any registry: the methods that it has are registered, what its
readings and assignments come to is decided by the registry, and a call of a method is a call of what is behind it. A
document changes its content only by assignments to `content` that succeed, and takes a path or loses its flag
only by calls of `save` that succeed. -/
theorem host_objects_gated (h₀ : OnlyRegistered s₀) (h : Reached s₀ uses s) :
    OnlyRegistered s ∧
    (∀ (p : Nat) (name : String) (hidden? : Option Nat), s.store.objects[p]? = some (.space name hidden?) →
      ∀ (origin : Origin) (key : Value), ReadGated s origin p name hidden? key ∧
        ∀ v : Value, AssignGated s origin p name key v) ∧
    (∀ (p : Nat) (name : String) (m : Member), s.store.closures[p]? = some (.member name m) →
      ∀ (origin : Origin) (args : List Value), s.callAt origin p args = some (
        match HostObject.call s.world name m (HostObject.withoutSelf (args.map s.store.datum)) with
        | (.ok ds, w) =>
          (.ok (Operation.firstOf (s.store.ofDatums ds).1), { s with store := (s.store.ofDatums ds).2, world := w })
        | (.error f, w) => (.error f, { s with world := w }))) ∧
    (.assign "doc" (some "content") true ∉ uses → s₀.world.desk.KeepsContents s.world.desk) ∧
    ((∀ m, .call "doc" m true ∈ uses → m.name ≠ "save") → s₀.world.desk.KeepsUnsaved s.world.desk) :=
  ⟨h.onlyRegistered h₀, fun _ _ _ hp origin key => ⟨readGated hp origin key, assignGated hp origin key⟩,
    fun _ _ _ hp origin args => callAt_method origin args hp, h.keepsContents, h.keepsUnsaved⟩

/-- A script sets the content of a document that was never saved. -/
theorem host_objects_gated_unsaved :
    let s₀ : Session :=
      { store := { objects := #[.space "doc" none], registry := RegistryBuilder.standard.build }
        world := { now := default, desk := { sheets := [{ document := { content := "old" } }], active? := some 0 } }
        limits := {} }
    ∃ s, Reached s₀ [.assign "doc" (some "content") true] s ∧
      s.world.desk.document? 0 = some { content := "new", dirty := true } ∧ OnlyRegistered s ∧
      s₀.world.desk.KeepsUnsaved s.world.desk := by
  intro s₀
  have h₀ : OnlyRegistered s₀ := fun p name m hp => by simp [s₀] at hp
  have hkey : Operation.keyText s₀.store "__newindex" (.ofString "content") = .ok "content" := keyText_ofString _ _ _
  have hgate := ((host_objects_gated h₀ .start).2.1 0 "doc" none rfl .unknown (.ofString "content")).2 (.ofString "new")
  have hcontent : HostObject.contentOf (s₀.store.datum (.ofString "new")) = .ok "new" := by
    simp only [Store.datum, Store.datumIn, Value.ofString, HostObject.contentOf, HostObject.utf8, fromUTF8?_toUTF8]
  obtain ⟨desk, hdesk, hassign⟩ := hgate.taken ⟨rfl, hkey, ⟨_, rfl, rfl, rfl⟩, rfl, rfl⟩ "new" hcontent
  have hreached := Reached.start.step (.assign rfl hassign)
  rw [hkey] at hreached
  obtain ⟨honly, -, -, -, hkeeps⟩ := host_objects_gated h₀ hreached
  cases hdesk
  exact ⟨_, hreached, rfl, honly, hkeeps fun m hm => by simp at hm⟩

end Session

end Script

end Scriptorium
