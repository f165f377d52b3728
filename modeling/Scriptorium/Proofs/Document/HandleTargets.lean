import Mathlib.Logic.Relation
import Scriptorium.Proofs.Document.Editing
import Scriptorium.Proofs.Document.HandleMoves

/-!
# What handles mean

An operation through a handle is an operation on one document, the one that was activated last through the handle or a
copy of it, as long as the editor has not dropped that document since; else it is refused and nothing changes
(`handles_mean_active`). Both are told by the moves that were made: which handles share a slot (`related_iff`), and what
is active in it (`means_iff`).
-/

namespace Scriptorium.Office

variable {disk : Disk} {o o' : Office} {m : Move} {ms past before after : List Move} {h k i n slot : Nat}

/-! ## Histories -/

/-- How many handles moves make. -/
def handlesMade (past : List Move) : Nat := past.countP (·.makesHandle)

/-- The handle `k` was made as a copy of the handle `h`. -/
def CopyOf (past : List Move) (h k : Nat) : Prop :=
  ∃ before after, past = before ++ .copy h :: after ∧ handlesMade before = k

/-- The handles are copies of one another, or of one another's copies. -/
def Related (past : List Move) : Nat → Nat → Prop := Relation.EqvGen (CopyOf past)

/-- What was activated or deactivated last, through the handle or a relative of it, is the document, and the editor has
not dropped it since. -/
def Means (past : List Move) (h n : Nat) : Prop :=
  ∃ before k after, past = before ++ .activate k n :: after ∧ Related past h k ∧
    (∀ k', Related past h k' → .deactivate k' ∉ after ∧ ∀ i, .activate k' i ∉ after) ∧ .drop n ∉ after

theorem CopyOf.concat (hcopy : CopyOf past h k) (m : Move) : CopyOf (past ++ [m]) h k := by
  obtain ⟨before, after, rfl, hk⟩ := hcopy
  exact ⟨before, after ++ [m], by simp, hk⟩

theorem Related.concat (hrelated : Related past h k) (m : Move) : Related (past ++ [m]) h k :=
  Relation.EqvGen.mono (fun _ _ (hcopy : CopyOf past _ _) => hcopy.concat m) _ _ hrelated

theorem handlesMade_concat (past : List Move) (m : Move) :
    handlesMade (past ++ [m]) = handlesMade past + m.makesHandle.toNat := by
  rw [handlesMade, List.countP_append, handlesMade]
  cases h : m.makesHandle <;> simp [h]

theorem switch?_eq_activate : m.switch? = some (h, some n) ↔ m = .activate h n := by
  cases m <;> simp [Move.switch?]

theorem switch?_eq_deactivate : m.switch? = some (h, none) ↔ m = .deactivate h := by
  cases m <;> simp [Move.switch?]

/-! ## Runs -/

theorem run?_append (o : Office) (ms ms' : List Move) : o.run? (ms ++ ms') = (o.run? ms).bind (run? · ms') := by
  induction ms generalizing o with
  | nil => rfl
  | cons m ms ih =>
    rw [List.cons_append, run?, run?, Option.bind_assoc]
    exact congrArg _ (funext fun o' => ih o')

theorem run?_concat (hrun : o.run? (ms ++ [m]) = some o') : ∃ o₁, o.run? ms = some o₁ ∧ o₁.step? m = some o' := by
  rw [run?_append] at hrun
  obtain ⟨o₁, hrun₁, hstep⟩ := Option.bind_eq_some_iff.1 hrun
  obtain ⟨o₂, hstep, hnil⟩ := Option.bind_eq_some_iff.1 hstep
  exact ⟨o₁, hrun₁, Option.some.inj hnil ▸ hstep⟩

/-- What holds at the start, and after a move whenever it held before, holds at the end of a run. -/
theorem run_induction {P : List Move → Office → Prop} (hrun : o.run? ms = some o') (hstart : P [] o)
    (hmove : ∀ past m o₁ o₂, o.run? past = some o₁ → P past o₁ → o₁.step? m = some o₂ → P (past ++ [m]) o₂) :
    P ms o' := by
  induction ms using List.reverseRecOn generalizing o' with
  | nil => exact Option.some.inj hrun ▸ hstart
  | append_singleton ms m ih =>
    obtain ⟨o₁, hrun₁, hstep⟩ := run?_concat hrun
    exact hmove ms m o₁ o' hrun₁ (ih hrun₁) hstep

/-- A run up to a move, that move, and the rest. -/
theorem run?_cut (hrun : o.run? (before ++ m :: after) = some o') :
    ∃ o₁ o₂, o.run? before = some o₁ ∧ o₁.step? m = some o₂ ∧ o₂.run? after = some o' := by
  rw [run?_append] at hrun
  obtain ⟨o₁, hbefore, hrest⟩ := Option.bind_eq_some_iff.1 hrun
  obtain ⟨o₂, hstep, hafter⟩ := Option.bind_eq_some_iff.1 hrest
  exact ⟨o₁, o₂, hbefore, hstep, hafter⟩

theorem handles_run (hrun : o.run? ms = some o') : o.handles <+: o'.handles :=
  run_induction (P := fun _ o' => o.handles <+: o'.handles) hrun (List.prefix_refl _)
    fun _ _ _ _ _ ih hstep => ih.trans (handles_step hstep)

theorem answers_run (hrun : o.run? ms = some o') : o.answers <+: o'.answers :=
  run_induction (P := fun _ o' => o.answers <+: o'.answers) hrun (List.prefix_refl _)
    fun _ _ _ _ _ ih hstep => ih.trans (answers_step hstep)

theorem calm_run (hrun : (opening disk).run? past = some o) : o.Calm :=
  run_induction (P := fun _ o => o.Calm) hrun (fun _ hs => nomatch hs) fun _ _ _ _ _ ih hstep => ih.step hstep

theorem wired_run (hrun : (opening disk).run? past = some o) : o.Wired :=
  run_induction (P := fun _ o => o.Wired) hrun (fun _ hslot => nomatch hslot) fun _ _ _ _ _ ih hstep => ih.step hstep

/-- A document that the editor keeps is kept at the end of a run in which the editor has not dropped it. -/
theorem keeps_run (hrun : o.run? ms = some o') (hn : o.keeps n) : o'.keeps n ↔ .drop n ∉ ms := by
  refine (run_induction (P := fun ms o' => n < o'.sheets.length ∧ (o'.keeps n ↔ .drop n ∉ ms)) hrun ?_ ?_).2
  · exact ⟨keeps_lt hn, by simp [hn]⟩
  · intro ms m o₁ o₂ _ ⟨hlt, ih⟩ hstep
    refine ⟨Nat.lt_of_lt_of_le hlt (length_step hstep), ?_⟩
    rw [List.mem_append, List.mem_singleton, not_or, ← ih]
    constructor
    · intro hkept
      have hbefore := keeps_of_step hstep hlt hkept
      exact ⟨hbefore, fun heq => (keeps_step hstep hbefore).1 hkept heq.symm⟩
    · rintro ⟨hbefore, hne⟩
      exact (keeps_step hstep hbefore).2 fun heq => hne heq.symm

theorem length_handles (hrun : (opening disk).run? past = some o) : o.handles.length = handlesMade past := by
  refine run_induction (P := fun past o => o.handles.length = handlesMade past) hrun rfl ?_
  intro past m o₁ o₂ _ ih hstep
  rw [handlesMade_concat, ← ih]
  cases step_cases hstep with
  | switch hm => cases m <;> simp_all [Move.switch?, Move.makesHandle]
  | handle => simp [Move.makesHandle]
  | copy => simp [Move.makesHandle]
  | other _ hmakes _ hhandles => simp [hmakes, hhandles]

/-! ## Relatives share a slot -/

theorem getElem?_concat_eq_some {α : Type} {xs : List α} {x y : α} {i : Nat} :
    (xs ++ [x])[i]? = some y ↔ xs[i]? = some y ∨ i = xs.length ∧ x = y := by
  rcases Nat.lt_trichotomy i xs.length with hlt | rfl | hgt
  · rw [List.getElem?_append_left hlt]
    simp [hlt.ne]
  · simp
  · rw [List.getElem?_eq_none (by simpa using Nat.succ_le_of_lt hgt), List.getElem?_eq_none hgt.le]
    simp [hgt.ne']

/-- A handle leads to the same slot from its making on. -/
theorem getElem?_handles_run (hrun : o.run? ms = some o') (hh : o.handles[h]? = some slot) :
    o'.handles[h]? = some slot := by
  obtain ⟨more, hmore⟩ := handles_run hrun
  rw [← hmore, List.getElem?_append_left (List.getElem?_eq_some_iff.1 hh).1, hh]

theorem getElem?_of_copyOf (hrun : (opening disk).run? past = some o) (hcopy : CopyOf past h k) :
    o.handles[h]? = o.handles[k]? := by
  obtain ⟨before, after, rfl, rfl⟩ := hcopy
  obtain ⟨o₁, o₂, hbefore, hstep, hafter⟩ := run?_cut hrun
  have hlength := length_handles hbefore
  cases step_cases hstep with
  | copy hslot =>
    have hlt := (List.getElem?_eq_some_iff.1 hslot).1
    rw [getElem?_handles_run hafter ((List.getElem?_append_left hlt).trans hslot),
      getElem?_handles_run hafter (by rw [← hlength]; exact List.getElem?_concat_length)]
  | switch hm => cases hm
  | other _ hmakes => cases hmakes

/-- Of two handles that lead to one slot, the one that was made later was made as a copy, and so on back. -/
theorem related_of_slot (hrun : (opening disk).run? past = some o) :
    ∀ h k slot, o.handles[h]? = some slot → o.handles[k]? = some slot → Related past h k := by
  refine run_induction (P := fun past o => ∀ h k slot, o.handles[h]? = some slot → o.handles[k]? = some slot →
    Related past h k) hrun (fun _ _ _ hh => nomatch hh) ?_
  intro past m o₁ o₂ hrun₁ ih hstep
  cases step_cases hstep with
  | switch => exact fun h k slot hh hk => (ih h k slot hh hk).concat _
  | other _ _ _ hhandles => exact fun h k slot hh hk => (ih h k slot (hhandles ▸ hh) (hhandles ▸ hk)).concat _
  | handle =>
    intro h k slot hh hk
    -- no older handle leads to the slot of the new one
    have hold : ∀ j, o₁.handles[j]? = some slot → slot ≠ o₁.slots.length := fun j hj =>
      Nat.ne_of_lt (wired_run hrun₁ slot (List.mem_of_getElem? hj))
    rcases getElem?_concat_eq_some.1 hh with hh | ⟨rfl, rfl⟩ <;>
      rcases getElem?_concat_eq_some.1 hk with hk | ⟨rfl, hslot⟩
    · exact (ih h k slot hh hk).concat _
    · exact absurd hslot.symm (hold h hh)
    · exact absurd rfl (hold k hk)
    · exact .refl _
  | @copy c s hc =>
    -- each handle of the slot has an older relative of the slot
    have hold : ∀ j slot, (o₁.handles ++ [s])[j]? = some slot →
        ∃ j', o₁.handles[j']? = some slot ∧ Related (past ++ [.copy c]) j j' := by
      intro j slot hj
      rcases getElem?_concat_eq_some.1 hj with hj | ⟨rfl, rfl⟩
      · exact ⟨j, hj, .refl _⟩
      · exact ⟨c, hc, .symm _ _ (.rel _ _ ⟨past, [], rfl, (length_handles hrun₁).symm⟩)⟩
    intro h k slot hh hk
    obtain ⟨h', hh', hrelated⟩ := hold h slot hh
    obtain ⟨k', hk', hrelated'⟩ := hold k slot hk
    exact (hrelated.trans _ _ _ ((ih h' k' slot hh' hk').concat _)).trans _ _ _ (hrelated'.symm _ _)

theorem related_iff (hrun : (opening disk).run? past = some o) (hh : o.handles[h]? = some slot) :
    Related past h k ↔ o.handles[k]? = some slot := by
  refine ⟨fun hrelated => ?_, related_of_slot hrun h k slot hh⟩
  have hsame : o.handles[h]? = o.handles[k]? := by
    clear hh
    induction hrelated with
    | rel _ _ hcopy => exact getElem?_of_copyOf hrun hcopy
    | refl => rfl
    | symm _ _ _ ih => exact ih.symm
    | trans _ _ _ _ _ ih ih' => exact ih.trans ih'
  exact hsame ▸ hh

/-! ## What is active in a slot -/

/-- A move through one of the handles that lead to the slot in the end. -/
def Through (handles : List Nat) (slot : Nat) (m : Move) : Prop :=
  ∃ k a?, m.switch? = some (k, a?) ∧ handles[k]? = some slot

/-- What was activated last through a handle of the slot is active there. -/
theorem active?_iff {handles : List Nat} (hrun : (opening disk).run? past = some o) (hhandles : o.handles <+: handles) :
    o.active? slot = some n ↔ ∃ before k after, past = before ++ .activate k n :: after ∧
      handles[k]? = some slot ∧ ∀ m ∈ after, ¬ Through handles slot m := by
  revert hhandles
  refine run_induction (P := fun past o => o.handles <+: handles → (o.active? slot = some n ↔
    ∃ before k after, past = before ++ .activate k n :: after ∧ handles[k]? = some slot ∧
      ∀ m ∈ after, ¬ Through handles slot m)) hrun ?_ ?_
  · intro _
    simp [active?, opening]
  · intro past m o₁ o₂ hrun₁ ih hstep hhandles
    have hhandles₁ := (handles_step hstep).trans hhandles
    by_cases hm : Through handles slot m
    · obtain ⟨k, a?, hswitch, hk⟩ := hm
      have hk₁ : o₁.handles[k]? = some slot := by
        cases step_cases hstep with
        | @switch _ k' slot' _ hswitch' hk' =>
          obtain ⟨rfl, -⟩ := Prod.mk.inj (Option.some.inj (hswitch.symm.trans hswitch'))
          obtain ⟨more, rfl⟩ := hhandles₁
          rwa [List.getElem?_append_left (List.getElem?_eq_some_iff.1 hk').1] at hk
        | handle => cases hswitch
        | copy => cases hswitch
        | other hnone => rw [hnone] at hswitch; cases hswitch
      rw [active?_switch (wired_run hrun₁) hstep hswitch hk₁]
      constructor
      · rintro rfl
        exact ⟨past, k, [], by rw [switch?_eq_activate.1 hswitch], hk, by simp⟩
      · rintro ⟨before, k', after, hcut, -, hnone⟩
        rcases Document.concat_eq_cut.1 hcut with ⟨-, -, rfl⟩ | ⟨rest, rfl, -⟩
        · exact (Prod.mk.inj (Option.some.inj hswitch)).2.symm
        · exact absurd ⟨k, a?, hswitch, hk⟩ (hnone m (by simp))
    · have hsame : o₂.active? slot = o₁.active? slot := by
        refine active?_step hstep fun k a? hswitch hk => hm ⟨k, a?, hswitch, ?_⟩
        obtain ⟨more, rfl⟩ := hhandles₁
        rw [List.getElem?_append_left (List.getElem?_eq_some_iff.1 hk).1, hk]
      rw [hsame, ih hhandles₁]
      constructor
      · rintro ⟨before, k, after, rfl, hk, hnone⟩
        refine ⟨before, k, after ++ [m], by simp, hk, fun m' hm' => ?_⟩
        rcases List.mem_append.1 hm' with hm' | hm'
        · exact hnone m' hm'
        · exact List.mem_singleton.1 hm' ▸ hm
      · rintro ⟨before, k, after, hcut, hk, hnone⟩
        rcases Document.concat_eq_cut.1 hcut with ⟨-, -, rfl⟩ | ⟨rest, rfl, rfl⟩
        · exact absurd ⟨k, some n, rfl, hk⟩ hm
        · exact ⟨before, k, rest, rfl, hk, fun m' hm' => hnone m' (List.mem_append_left _ hm')⟩

theorem keeps_cut (hrun : o.run? (before ++ .activate k n :: after) = some o') : o'.keeps n ↔ .drop n ∉ after := by
  obtain ⟨o₁, o₂, -, hstep, hafter⟩ := run?_cut hrun
  refine keeps_run hafter ?_
  cases step_cases hstep with
  | switch hm _ hkept =>
    obtain ⟨rfl, rfl⟩ := Prod.mk.inj (Option.some.inj hm)
    exact (keeps_step hstep (hkept n rfl)).2 nofun
  | other hnone => cases hnone

/-- A handle means the document that is active in its slot, if the editor keeps it. -/
theorem means_iff (hrun : (opening disk).run? past = some o) (hh : o.handles[h]? = some slot) :
    Means past h n ↔ o.active? slot = some n ∧ o.keeps n := by
  rw [active?_iff hrun (List.prefix_refl _)]
  constructor
  · rintro ⟨before, k, after, rfl, hrelated, hnone, hdrop⟩
    refine ⟨⟨before, k, after, rfl, (related_iff hrun hh).1 hrelated, ?_⟩, (keeps_cut hrun).2 hdrop⟩
    rintro m hm ⟨k', a?, hswitch, hk'⟩
    obtain ⟨hdeactivate, hactivate⟩ := hnone k' ((related_iff hrun hh).2 hk')
    cases a? with
    | none => exact hdeactivate (switch?_eq_deactivate.1 hswitch ▸ hm)
    | some i => exact hactivate i (switch?_eq_activate.1 hswitch ▸ hm)
  · rintro ⟨⟨before, k, after, rfl, hk, hnone⟩, hkept⟩
    refine ⟨before, k, after, rfl, (related_iff hrun hh).2 hk, fun k' hk' => ?_, (keeps_cut hrun).1 hkept⟩
    have hslot := (related_iff hrun hh).1 hk'
    exact ⟨fun hm => hnone _ hm ⟨k', none, rfl, hslot⟩, fun i hm => hnone _ hm ⟨k', some i, rfl, hslot⟩⟩

/-! ## Operations through a handle -/

theorem use_of_means (hrun : (opening disk).run? past = some o) (hh : o.handles[h]? = some slot)
    (hmeans : Means past h n) (op : Desk.Operation) :
    ∃ document, o.desk.document? n = some document ∧
      (o.use slot op).desk.document? n = some (document.perform o.disk op).2.1 ∧
      (∀ i, i ≠ n → (o.use slot op).desk.document? i = o.desk.document? i) ∧
      (o.use slot op).disk = (document.perform o.disk op).2.2 ∧
      (o.use slot op).answers = o.answers ++ [(document.perform o.disk op).1] := by
  obtain ⟨hactive, hkept⟩ := (means_iff hrun hh).1 hmeans
  obtain ⟨s, hs, hskept⟩ := keeps_iff.1 hkept
  have hsheet : (o.deskAt slot).sheet? n = some s :=
    Desk.sheet?_eq_some.2 ⟨hs, ((calm_run hrun).alive hs).trans hskept⟩
  have hcurrent : (o.deskAt slot).current? = some (n, s) := by
    change (o.active? slot).bind _ = _
    rw [hactive, Option.bind_some, hsheet, Option.map_some]
  have hdocument (i : Nat) : (o.use slot op).desk.document? i =
      if n = i then (o.desk.document? i).map fun _ => (s.document.perform o.disk op).2.1 else o.desk.document? i := by
    rw [use_eq, Desk.perform_eq hcurrent]
    exact Desk.document?_update (o.deskAt slot) n (fun _ => (s.document.perform o.disk op).2.1) i
  have hn : o.desk.document? n = some s.document := by rw [Desk.document?, desk, hs]; rfl
  refine ⟨s.document, hn, ?_, fun i hi => ?_, ?_, ?_⟩
  · rw [hdocument, if_pos rfl, hn]
    rfl
  · rw [hdocument, if_neg (Ne.symm hi)]
  · rw [use_eq, Desk.perform_eq hcurrent]
  · rw [use_eq, Desk.perform_eq hcurrent]

theorem use_of_not_means (hrun : (opening disk).run? past = some o) (hh : o.handles[h]? = some slot)
    (hmeans : ¬ ∃ n, Means past h n) (op : Desk.Operation) :
    o.use slot op = { o with answers := o.answers ++ [.error .unavailable] } := by
  have hcurrent : (o.deskAt slot).current? = none := by
    refine Option.eq_none_iff_forall_ne_some.2 fun entry hentry => hmeans ⟨entry.1, (means_iff hrun hh).2 ?_⟩
    obtain ⟨hnumber, hs, halive⟩ := Desk.current?_eq_some hentry
    have hkept := ((calm_run hrun).alive hs).symm.trans halive
    exact ⟨(Desk.number?_eq_some.1 hnumber).1, keeps_iff.2 ⟨entry.2, hs, hkept⟩⟩
  rw [use_eq, Desk.perform_of_none hcurrent]
  rfl

/-- **Handles mean the active document.** After any moves, an operation through a handle is the operation on the document
that was activated last through the handle or a copy of it, if the editor has not dropped it since: it changes no other
document. Else it is refused and changes no document and no file. It makes no difference through which of the copies it
is performed, and whatever is done later, what was answered stays. -/
theorem handles_mean_active (disk : Disk) (past : List Move) (o : Office) (h : Nat) (op : Desk.Operation)
    (hrun : (opening disk).run? past = some o) (hh : h < o.handles.length) :
    (∀ n, Means past h n → ∃ document o', o.desk.document? n = some document ∧ o.step? (.use h op) = some o' ∧
      o'.desk.document? n = some (document.perform o.disk op).2.1 ∧
      (∀ i, i ≠ n → o'.desk.document? i = o.desk.document? i) ∧
      o'.disk = (document.perform o.disk op).2.2 ∧
      o'.answers = o.answers ++ [(document.perform o.disk op).1]) ∧
    ((¬ ∃ n, Means past h n) →
      o.step? (.use h op) = some { o with answers := o.answers ++ [.error .unavailable] }) ∧
    (∀ o', o.step? (.use h op) = some o' →
      (o'.answers = o.answers ++ [.error .unavailable] ↔ ¬ ∃ n, Means past h n)) ∧
    (∀ k, Related past h k → o.step? (.use k op) = o.step? (.use h op)) ∧
    (∀ o' more o'', o.step? (.use h op) = some o' → o'.run? more = some o'' → o'.answers <+: o''.answers) := by
  have hslot : o.handles[h]? = some o.handles[h] := List.getElem?_eq_getElem hh
  have huse {k : Nat} (hk : o.handles[k]? = some o.handles[h]) :
      o.step? (.use k op) = some (o.use o.handles[h] op) := by rw [step?, hk, Option.map_some]
  refine ⟨fun n hmeans => ?_, fun hmeans => ?_, fun o' hstep => ⟨?_, fun hmeans => ?_⟩, fun k hrelated => ?_,
    fun o' more o'' _ hmore => answers_run hmore⟩
  · obtain ⟨document, hdocument, hafter⟩ := use_of_means hrun hslot hmeans op
    exact ⟨document, o.use o.handles[h] op, hdocument, huse hslot, hafter⟩
  · rw [huse hslot, use_of_not_means hrun hslot hmeans]
  · rintro hanswers ⟨n, hmeans⟩
    obtain rfl := Option.some.inj ((huse hslot).symm.trans hstep)
    obtain ⟨document, -, -, -, -, hanswer⟩ := use_of_means hrun hslot hmeans op
    rw [hanswers] at hanswer
    have hlast := List.append_cancel_left hanswer
    exact document.perform_ne_unavailable o.disk op (List.cons.inj hlast).1.symm
  · rw [huse hslot, use_of_not_means hrun hslot hmeans] at hstep
    exact congrArg Office.answers (Option.some.inj hstep).symm
  · rw [huse ((related_iff hrun hslot).1 hrelated), huse hslot]

/-- What is activated through a copy is written through the first handle. -/
theorem handles_mean_active_write :
    ∃ o o' : Office,
      (opening {}).run? [.create { content := "a" }, .create { content := "b" }, .handle, .copy 0, .activate 1 1] =
        some o ∧
      0 < o.handles.length ∧
      o.step? (.use 0 (.write "c")) = some o' ∧
      o'.desk.document? 1 = some { content := "c", dirty := true } ∧
      o'.desk.document? 0 = some { content := "a" } := by
  let past : List Move := [.create { content := "a" }, .create { content := "b" }, .handle, .copy 0, .activate 1 1]
  let o : Office := ((opening {}).run? past).getD {}
  have hrun : (opening {}).run? past = some o := rfl
  have hcopy : CopyOf past 0 1 := ⟨past.take 3, past.drop 4, rfl, rfl⟩
  have hmeans : Means past 0 1 := ⟨past.take 4, 1, [], rfl, .rel _ _ hcopy, by simp, by simp⟩
  obtain ⟨document, o', hdocument, hstep, hwritten, hothers, -⟩ :=
    (handles_mean_active {} past o 0 (.write "c") hrun (by decide)).1 1 hmeans
  obtain rfl : { content := "b" } = document := Option.some.inj hdocument
  exact ⟨o, o', hrun, by decide, hstep, hwritten, (hothers 0 (by decide)).trans rfl⟩

end Scriptorium.Office
