import Scriptorium.Proofs.Editor.CheckedEditing
import Scriptorium.Proofs.Editor.LineRanges
import Scriptorium.Proofs.Suggestion.Session

/-!
# What a request records

A trigger is written here a second time with everything in it that can fail: it fails for an engine of another buffer,
where a text is cut off a boundary or back to front, and where the search for the first boundary of the context runs
past the end (`Engine.trigger?`). It goes through on every buffer that a user can reach. What it records is told by
the bytes that the action is about and the bytes that the answer will replace (`Request.Records`); the context is the
longest text of so many bytes that stands in front of the latter (`LongestEnd`).
-/

namespace Scriptorium.Editor

open Text

namespace Span

variable {r : Span} {cs head middle tail : List Char}

/-- The text of a range, if its ends are in order and on boundaries. -/
def text? (r : Span) (cs : List Char) : Option (List Char) :=
  if r.start ≤ r.stop then front? r.stop cs >>= back? r.start else none

theorem text?_of_cuts (h : r.Cuts cs head middle tail) : r.text? cs = some middle := by
  obtain ⟨rfl, hstart, hstop⟩ := h
  have hle : r.start ≤ r.stop := by rw [← hstart, ← hstop, size_append]; omega
  rw [text?, if_pos hle, ← hstart, ← hstop, front?_eq_some (boundary_size_append _ tail), take_size_append]
  show back? (size head) (head ++ middle) = some middle
  rw [back?_eq_some (boundary_size_append head middle), drop_size_append]

theorem text_of_cuts (h : r.Cuts cs head middle tail) : r.text cs = middle := by
  obtain ⟨rfl, hstart, hstop⟩ := h
  rw [text, slice, ← hstart, ← hstop, size_append, Nat.add_sub_cancel_left, List.append_assoc, drop_size_append,
    take_size_append]

theorem Cuts.boundary_start (h : r.Cuts cs head middle tail) : Boundary r.start cs :=
  ⟨head, middle ++ tail, by rw [h.text, List.append_assoc], h.start⟩

end Span

end Scriptorium.Editor

namespace Scriptorium.Assist

open Editor Text

/-! ## The context -/

/-- The longest text of at most so many bytes that the other one ends in. -/
structure LongestEnd (limit : Nat) (cs back : List Char) : Prop where
  suffix : back <:+ cs
  size_le : size back ≤ limit
  longest : ∀ other, other <:+ cs → size other ≤ limit → other <:+ back

theorem prefix_take {n : Nat} {front cs : List Char} (h : front <+: cs) (hsize : size front ≤ n) :
    front <+: take n cs := by
  induction front generalizing n cs with
  | nil => exact List.nil_prefix
  | cons c front ih =>
    obtain ⟨back, rfl⟩ := h
    rw [size_cons] at hsize
    rw [List.cons_append, take_cons, if_pos (by omega)]
    exact List.cons_prefix_cons.2 ⟨rfl, ih (List.prefix_append front back) (by omega)⟩

theorem lastBytes_longestEnd (limit : Nat) (cs : List Char) : LongestEnd limit cs (lastBytes limit cs) where
  suffix := by
    rw [← List.reverse_prefix, lastBytes, List.reverse_reverse]
    exact ⟨_, take_append_drop limit cs.reverse⟩
  size_le := by
    rw [lastBytes, size_reverse]
    exact snap_le limit cs.reverse
  longest other h hsize := by
    rw [← List.reverse_prefix, lastBytes, List.reverse_reverse]
    exact prefix_take (List.reverse_prefix.2 h) (by rwa [size_reverse])

/-- Two bytes would divide a character. -/
example : lastBytes 2 ['é', 'ü', 'a'] = ['a'] := by decide

/-- The first boundary of a text from an offset on. Past the end there is none. -/
def boundaryFrom? (cs : List Char) (n : Nat) : Option Nat :=
  if isBoundary n cs then some n
  else if n < size cs then boundaryFrom? cs (n + 1)
  else none
termination_by size cs - n

theorem boundaryFrom?_eq_some {cs : List Char} {n m : Nat} (h : Boundary m cs) (hle : n ≤ m)
    (hfirst : ∀ k, n ≤ k → k < m → ¬ Boundary k cs) : boundaryFrom? cs n = some m := by
  fun_induction boundaryFrom? cs n with
  | case1 n hn =>
    have hnot : ¬ n < m := fun hlt => hfirst n (Nat.le_refl n) hlt (isBoundary_iff.1 hn)
    rw [Nat.le_antisymm hle (Nat.le_of_not_lt hnot)]
  | case2 n hn hlt ih =>
    have hne : n ≠ m := fun heq => hn (isBoundary_iff.2 (heq ▸ h))
    exact ih (by omega) fun k hk => hfirst k (by omega)
  | case3 n hn hlt =>
    have hm : m ≤ size cs := h.snap_eq ▸ snap_le_size m cs
    have heq : n = m := by omega
    exact absurd (isBoundary_iff.2 (heq ▸ h)) hn

/-- The text before an offset from the first boundary on that is at most `contextLimit` bytes away. -/
def contextBefore? (cs : List Char) (stop : Nat) : Option (List Char) := do
  let start ← boundaryFrom? cs (stop - contextLimit)
  Span.text? ⟨start, stop⟩ cs

/-- No boundary stands between the limit and the start of the longest end; a longer end could start there. -/
theorem LongestEnd.not_boundary {limit : Nat} {front back after : List Char}
    (h : LongestEnd limit (front ++ back) back) {k : Nat} (hle : size (front ++ back) - limit ≤ k)
    (hlt : k < size front) : ¬ Boundary k (front ++ back ++ after) := by
  rintro ⟨x, y, htext, rfl⟩
  rw [List.append_assoc] at htext
  rcases List.append_eq_append_iff.1 htext with ⟨z, rfl, -⟩ | ⟨z, rfl, -⟩
  · rw [size_append] at hlt
    omega
  · simp only [size_append] at hle
    obtain ⟨w, hw⟩ := h.longest (z ++ back) ⟨x, (List.append_assoc x z back).symm⟩ (by rw [size_append]; omega)
    have hsize := congrArg size hw
    simp only [size_append] at hlt hsize
    omega

theorem contextBefore?_eq (before after : List Char) :
    contextBefore? (before ++ after) (size before) = some (lastBytes contextLimit before) := by
  have hlongest := lastBytes_longestEnd contextLimit before
  generalize lastBytes contextLimit before = back at hlongest ⊢
  obtain ⟨front, rfl⟩ := hlongest.suffix
  have hle : size (front ++ back) - contextLimit ≤ size front := by
    have hback := hlongest.size_le
    rw [size_append]
    omega
  have hstart : Boundary (size front) (front ++ back ++ after) := ⟨front, back ++ after, List.append_assoc .., rfl⟩
  have hsearch := boundaryFrom?_eq_some hstart hle fun k hk hlt => hlongest.not_boundary hk hlt
  rw [contextBefore?, hsearch]
  exact Span.text?_of_cuts ⟨rfl, rfl, rfl⟩

/-! ## The bytes that an action is about -/

/-- A suggestion is about the cursor; every other action is about the selection, or else about the line of the
cursor. -/
inductive IsAnchor (b : Buffer) : Action → Span → Prop where
  | cursor : IsAnchor b .suggest (.point b.cursor)
  | selection {action : Action} {r : Span} (haction : action ≠ .suggest) (hr : b.selection = some r) :
      IsAnchor b action r
  | line {action : Action} {line : Span} (haction : action ≠ .suggest) (hnone : b.selection = none)
      (hline : line.IsLineAt b.text b.cursor) : IsAnchor b action line

/-- An explanation goes to the start of the line in which its subject starts; every other answer goes in place of the
subject. -/
inductive IsTarget (b : Buffer) (anchor : Span) : Action → Span → Prop where
  | anchor {action : Action} (haction : action ≠ .explain) : IsTarget b anchor action anchor
  | lineStart {line : Span} (hline : line.IsLineAt b.text anchor.start) : IsTarget b anchor .explain (.point line.start)

/-- The request tells of an action on a buffer, where the one range is what it is about and the other one what the
answer will replace. -/
structure Request.Records (q : Request) (b : Buffer) (action : Action) (anchor target : Span) : Prop where
  buffer_eq : q.buffer = b.id
  action_eq : q.action = action
  isAnchor : IsAnchor b action anchor
  isTarget : IsTarget b anchor action target
  cursor_eq : q.cursor = b.cursor
  selection_cuts : ∃ head tail, anchor.Cuts b.text head q.selection tail
  context_longest : ∃ before after, b.text = before ++ after ∧ size before = target.start ∧
    LongestEnd contextLimit before q.context

section Ranges

variable {b : Buffer}

/-- A suggestion is about the place of the cursor, where there is no text. -/
theorem Request.Records.selection_suggest {q : Request} {anchor target : Span}
    (h : q.Records b .suggest anchor target) : q.selection = [] := by
  obtain ⟨head, tail, -, hstart, hstop⟩ := h.selection_cuts
  cases h.isAnchor with
  | cursor =>
    rw [size_append] at hstop
    have hsize : size head = size head + size q.selection := hstart.trans hstop.symm
    exact size_eq_zero_iff.1 (by omega)
  | selection haction _ => exact absurd rfl haction
  | line haction _ _ => exact absurd rfl haction

theorem IsAnchor.cuts (h : b.WellFormed) {action : Action} {anchor : Span} (hanchor : IsAnchor b action anchor) :
    ∃ head middle tail, anchor.Cuts b.text head middle tail := by
  cases hanchor with
  | cursor => exact Span.exists_cuts h.cursor h.cursor (Nat.le_refl _)
  | selection _ hr =>
    obtain ⟨hstart, hlt, hstop⟩ := h.selection anchor hr
    exact Span.exists_cuts hstart (hstop ▸ h.cursor) (Nat.le_of_lt hlt)
  | line _ _ hline =>
    obtain ⟨head, middle, tail, hcuts, -⟩ := hline.isLine
    exact ⟨head, middle, tail, hcuts⟩

theorem IsAnchor.boundary_start (h : b.WellFormed) {action : Action} {anchor : Span}
    (hanchor : IsAnchor b action anchor) : Boundary anchor.start b.text := by
  obtain ⟨head, middle, tail, hcuts⟩ := hanchor.cuts h
  exact hcuts.boundary_start

theorem IsTarget.boundary_start (h : b.WellFormed) {action : Action} {anchor target : Span}
    (hanchor : IsAnchor b action anchor) (htarget : IsTarget b anchor action target) :
    Boundary target.start b.text := by
  cases htarget with
  | anchor _ => exact hanchor.boundary_start h
  | lineStart hline =>
    obtain ⟨head, middle, tail, hcuts, -⟩ := hline.isLine
    exact hcuts.boundary_start

namespace Request

/-- The bytes that an action is about, unless they are those of a line and there is none. -/
def anchor? (b : Buffer) (action : Action) : Option Span :=
  match action, b.selection with
  | .suggest, _ => some (.point b.cursor)
  | _, some r => some r
  | _, none => b.lineRangeAt? b.cursor

/-- The bytes that the answer will replace, unless they are found by a line and there is none. -/
def target? (b : Buffer) (action : Action) (anchor : Span) : Option Span :=
  match action with
  | .explain => (b.lineRangeAt? anchor.start).map fun line => .point line.start
  | _ => some anchor

theorem isAnchor_anchor (h : b.WellFormed) (action : Action) : IsAnchor b action (anchor b action) := by
  by_cases haction : action = .suggest
  · rw [haction]
    exact .cursor
  · have hanchor : anchor b action = b.selection.getD b.cursorLine := by
      cases action <;> first | rfl | exact absurd rfl haction
    rw [hanchor]
    cases hselection : b.selection with
    | none => exact .line haction hselection (Buffer.lineAround_isLine h.cursor)
    | some r => exact .selection haction hselection

theorem anchor?_eq (h : b.WellFormed) (action : Action) : anchor? b action = some (anchor b action) := by
  unfold anchor? anchor
  cases action <;> cases b.selection <;> first | rfl | exact h.lineRangeAt?_cursor

theorem isTarget_target (h : b.WellFormed) (action : Action) :
    IsTarget b (anchor b action) action (target b action) := by
  cases action with
  | explain => exact .lineStart (Buffer.lineAround_isLine ((isAnchor_anchor h .explain).boundary_start h))
  | _ => exact .anchor (by nofun)

theorem target?_eq (h : b.WellFormed) (action : Action) :
    target? b action (anchor b action) = some (target b action) := by
  cases action with
  | explain =>
    have hboundary := (isAnchor_anchor h .explain).boundary_start h
    have hmin : min (anchor b .explain).start (size b.text) = (anchor b .explain).start :=
      Nat.min_eq_left (hboundary.snap_eq ▸ snap_le_size _ b.text)
    rw [target?, Buffer.lineRangeAt?_of_boundary (by rwa [hmin]), hmin]
    rfl
  | _ => rfl

theorem ofBuffer_records (h : b.WellFormed) (generation : Nat) (action : Action) :
    (ofBuffer b generation action).Records b action (anchor b action) (target b action) where
  buffer_eq := rfl
  action_eq := rfl
  isAnchor := isAnchor_anchor h action
  isTarget := isTarget_target h action
  cursor_eq := rfl
  selection_cuts := by
    obtain ⟨head, middle, tail, hcuts⟩ := (isAnchor_anchor h action).cuts h
    refine ⟨head, tail, ?_⟩
    show (anchor b action).Cuts b.text head ((anchor b action).text b.text) tail
    rwa [Span.text_of_cuts hcuts]
  context_longest := by
    obtain ⟨before, after, htext, hsize⟩ := (isTarget_target h action).boundary_start h (isAnchor_anchor h action)
    refine ⟨before, after, htext, hsize, ?_⟩
    show LongestEnd contextLimit before (lastBytes contextLimit (take (target b action).start b.text))
    rw [htext, ← hsize, take_size_append]
    exact lastBytes_longestEnd contextLimit before

end Request

/-! ## The trigger -/

namespace Engine

/-- The request and the engine behind it, unless something on the way to them fails. -/
def trigger? (e : Engine) (b : Buffer) (action : Action) (now : Nat) : Option (Request × Engine) :=
  if b.id = e.buffer then do
    let e := e.cancel.2
    let anchor ← Request.anchor? b action
    let target ← Request.target? b action anchor
    let generation := e.nextGeneration
    let selection ← anchor.text? b.text
    let context ← contextBefore? b.text target.start
    let q : Request := { buffer := e.buffer, generation, action, selection, context, cursor := b.cursor }
    let e' : Engine :=
      { e with
        phase := .requesting generation action target
        nextGeneration := generation + 1
        requestedAt? := some now
        revision := b.revision }
    return (q, e')
  else none

theorem trigger?_eq (h : b.WellFormed) {e : Engine} (hserves : b.id = e.buffer) (action : Action) (now : Nat) :
    e.trigger? b action now = some (e.trigger b action now) := by
  obtain ⟨head, middle, tail, hcuts⟩ := (Request.isAnchor_anchor h action).cuts h
  obtain ⟨before, after, htext, hsize⟩ :=
    (Request.isTarget_target h action).boundary_start h (Request.isAnchor_anchor h action)
  have hselection : (Request.anchor b action).text? b.text = some ((Request.anchor b action).text b.text) := by
    rw [Span.text?_of_cuts hcuts, Span.text_of_cuts hcuts]
  have hcontext : contextBefore? b.text (Request.target b action).start =
      some (lastBytes contextLimit (take (Request.target b action).start b.text)) := by
    rw [htext, ← hsize, take_size_append, contextBefore?_eq]
  rw [trigger?, if_pos hserves]
  simp only [Request.anchor?_eq h, Request.target?_eq h, hselection, hcontext, Option.bind_eq_bind, Option.bind_some]
  rfl

/-- On every buffer that a user can reach, an engine that serves it makes a request for every action, and nothing on the
way fails. The request tells of what the action is about and of the text before the place of the answer, and the engine
waits for an answer to that place. -/
theorem trigger_records (h : b.Reachable) {e : Engine} (hserves : b.id = e.buffer) (action : Action) (now : Nat) :
    let q := (e.trigger b action now).1
    let e' := (e.trigger b action now).2
    e.trigger? b action now = some (q, e') ∧
      ∃ anchor target, q.Records b action anchor target ∧ e'.phase = .requesting q.generation action target ∧
        (action = .suggest → q.selection = []) := by
  intro q e'
  have hrecords := Request.ofBuffer_records h.wellFormed q.generation action
  have hbuffer : q.buffer = b.id := by rw [hserves, ← cancel_buffer]; rfl
  have hq : q.Records b action (Request.anchor b action) (Request.target b action) :=
    { hrecords with buffer_eq := hbuffer }
  refine ⟨trigger?_eq h.wellFormed hserves action now, _, _, hq, ?_, ?_⟩
  · rw [trigger_phase, trigger_generation]
  · rintro rfl
    exact hq.selection_suggest

/-- The selection starts inside a character, at the start of the second line. -/
theorem trigger_records_explain :
    let b := (Buffer.ofText 7 ['x', '\n', 'é', 'y']).select ⟨3, 5⟩
    let q := (Engine.trigger { buffer := 7 } b .explain 0).1
    b.Reachable ∧ q.selection = ['é', 'y'] ∧ q.context = ['x', '\n'] ∧
      ∃ anchor target, q.Records b .explain anchor target := by
  intro b q
  have h : b.Reachable := ⟨7, [.setText ['x', '\n', 'é', 'y'], .select ⟨3, 5⟩], rfl⟩
  obtain ⟨-, anchor, target, hrecords, -⟩ := trigger_records h (e := { buffer := 7 }) rfl .explain 0
  exact ⟨h, by decide, by decide, anchor, target, hrecords⟩

end Engine

end Ranges

end Scriptorium.Assist
