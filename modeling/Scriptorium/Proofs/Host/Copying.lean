import Scriptorium.Proofs.Disk.Directories
import Scriptorium.Proofs.Disk.ReadBack
import Scriptorium.Proofs.Host.LeafServices

/-!
# Copying files

Copying changes the file at its destination and makes directories above it, and nothing else (`copy_effect`).
It opens the destination, which empties it, before it reads: so a file that is copied onto itself is lost
(`copy_loses_source`), and that is the one case in which a copy that succeeds is none.
-/

namespace Scriptorium

namespace Disk

variable {d d' : Disk} {at_ : Location} {path source target : String} {bytes : Bytes}

theorem write_of_locateForWriting (h : d.locateForWriting path = .ok at_) (bytes : Bytes)
    (fault? : Option WriteFault) :
    d.write path bytes fault? = match fault? with
      | some (.unopened e) => (.error e, d)
      | some (.brokenOff n e) => (.error e, d.setEntry at_ (.file (bytes.extract 0 n)))
      | none => (.ok (), d.setEntry at_ (.file bytes)) := by
  rcases fault? with _ | ⟨e⟩ | ⟨n, e⟩ <;> simp only [write, h]

/-- What the path of a file reads after one file has changed. -/
theorem ChangesFile.read_eq (h : ChangesFile at_ d d') {held : Bytes} (hheld : d'.find? at_ = some (.file held))
    {place : Location} (hplace : d.locate path = .ok place) (hbytes : d.find? place = some (.file bytes)) :
    d'.read path = .ok (if place = at_ then held else bytes) := by
  refine read_of_locate (h.sameDirectories.locate hplace) ?_
  split_ifs with hat
  · rw [hat, hheld]
  · rw [h.elsewhere place hat, hbytes]

/-- A copy fails and changes nothing, or it changes the destination alone. What the destination holds in the end
was read when the destination was empty already. -/
theorem copy_cases (d : Disk) (source target : String) (fault? : Option WriteFault) :
    (∃ e, d.copy source target fault? = (.error e, d)) ∨
      ∃ place bytes dest d', d.locate source = .ok place ∧ d.find? place = some (.file bytes) ∧
        d.locate target = .ok dest ∧ ChangesFile dest d d' ∧
          ((∃ n e, fault? = some (.brokenOff n e) ∧ d.copy source target fault? = (.error e, d')) ∨
            d'.find? dest = some (.file (if place = dest then .empty else bytes)) ∧
              d.copy source target fault? = (.ok (), d')) := by
  unfold copy
  cases hstat : d.stat source with
  | error e => exact .inl ⟨e, rfl⟩
  | ok entry =>
    obtain ⟨place, hplace, hentry⟩ := exists_locate_of_stat hstat
    cases entry with
    | directory => exact .inl ⟨_, rfl⟩
    | file bytes =>
      cases hdest : d.locateForWriting target with
      | error e => exact .inl ⟨e, by simp only [write, hdest]⟩
      | ok dest =>
        obtain ⟨hlocate, hdir⟩ := locate_of_locateForWriting hdest
        have hempty := (ChangesFile.setEntry hdir .empty).markLike source target
        have hheld := (find?_markLike _ source target dest).trans (find?_setEntry_self hdir .empty)
        have hread := hempty.read_eq hheld hplace hentry
        have hagain := hempty.sameDirectories.locateForWriting_eq_ok_iff.2 hdest
        have hwhole (held : Bytes) := hempty.trans (ChangesFile.setEntry hempty.after held)
        simp only [write_of_locateForWriting hdest]
        rcases fault? with _ | ⟨e⟩ | ⟨n, e⟩
        · simp only [Option.bind_none, hread, write_of_locateForWriting hagain]
          exact .inr ⟨place, bytes, dest, _, hplace, hentry, hlocate, hwhole _,
            .inr ⟨find?_setEntry_self hempty.after _, rfl⟩⟩
        · exact .inl ⟨e, rfl⟩
        · simp only [Option.bind_some, WriteFault.atOpening?, hread, write_of_locateForWriting hagain]
          exact .inr ⟨place, bytes, dest, _, hplace, hentry, hlocate, hwhole _, .inl ⟨n, e, rfl, rfl⟩⟩

end Disk

namespace Services

open Leaf Disk

variable {source target : String} {w : World}

theorem parent?_of_directory? {path dir : String} (h : Path.directory? path = some dir) :
    Path.parent? path = some dir := by
  unfold Path.directory? at h
  split at h
  · cases h
  · cases h
  · next hparent => rw [hparent, h]

/-- Making the directory of a path makes directories above the path only. -/
theorem makeParent_frame (path : String) (w : World) :
    ∃ r disk, makeParent path w = (r, { w with disk }) ∧ Frame [] (Path.Above path) w.disk disk := by
  unfold makeParent
  cases hdir : Path.directory? path with
  | none => exact ⟨.ok (), w.disk, rfl, .refl _ _ _⟩
  | some dir =>
    exact ⟨_, _, rfl, (makeDirectories_frame w.disk dir).mono fun p hp => .head' (parent?_of_directory? hdir) hp⟩

/-- A file that was there before directories were made is read as it is read now. -/
theorem read_before {d d' : Disk} {way : String → Prop} (h : Frame [] way d d') (hfile : d.isFile source = true)
    {place : Location} {bytes : Bytes} (hplace : d'.locate source = .ok place)
    (hbytes : d'.find? place = some (.file bytes)) : d.read source = .ok bytes := by
  unfold isFile at hfile
  split at hfile
  · next before hstat =>
    obtain ⟨place', hplace', hbefore⟩ := exists_locate_of_stat hstat
    obtain rfl := Except.ok.inj ((h.locate hplace').symm.trans hplace)
    obtain rfl : before = bytes := by
      simpa using (h.kept place' _ (by simp) hbefore).symm.trans hbytes
    exact read_of_locate hplace' hbefore
  · cases hfile

/-- What copying does to the disk.

A copy that fails has at most made directories above the destination; only when the copying itself breaks off,
which needs that nothing was seen at the destination or that overwriting was asked for, the destination may have
changed too. A copy that succeeds changes nothing but the destination and the directories made above it. Source
and destination hold what the source held, unless both mean the same file: then that file is empty. -/
theorem copy_effect (source target : String) (overwrite : Bool) (fault? : Option WriteFault) (w : World) :
    ∃ r disk, copy source target overwrite fault? w = (r, { w with disk }) ∧
      match r with
      | .error _ =>
        Frame [] (Path.Above target) w.disk disk ∨
          (∃ n e, fault? = some (.brokenOff n e)) ∧ (w.disk.isThere target = true → overwrite = true) ∧
            ∃ dest, disk.locate target = .ok dest ∧ Frame [dest] (Path.Above target) w.disk disk
      | .ok _ =>
        (w.disk.isThere target = true → overwrite = true) ∧
          ∃ dest bytes, disk.locate target = .ok dest ∧ Frame [dest] (Path.Above target) w.disk disk ∧
            w.disk.read source = .ok bytes ∧
              if disk.locate source = .ok dest then disk.read source = .ok .empty ∧ disk.read target = .ok .empty
              else disk.read source = .ok bytes ∧ disk.read target = .ok bytes := by
  obtain ⟨made, disk, hparent, hframe⟩ := makeParent_frame target w
  by_cases hsource : w.disk.isFile source = true
  swap
  · exact ⟨.error (.usage (.noSource source)), w.disk, by simp [copy, Bind.bind, Leaf.disk, hsource, fail],
      .inl (.refl _ _ _)⟩
  by_cases hthere : (w.disk.isThere target && !overwrite) = true
  · exact ⟨.error (.usage (.targetExists target)), w.disk, by simp [copy, Bind.bind, Leaf.disk, hsource, hthere, fail],
      .inl (.refl _ _ _)⟩
  have hallowed : w.disk.isThere target = true → overwrite = true := by simpa using hthere
  have hcopy : copy source target overwrite fault? w =
      (makeParent target >>= fun _ => onDisk target (·.copy source target fault?)) w := by
    simp [copy, Bind.bind, Leaf.disk, hsource, hthere]
  simp only [Bind.bind, hparent] at hcopy
  cases made with
  | error e => exact ⟨_, _, hcopy, .inl hframe⟩
  | ok =>
    simp only [onDisk] at hcopy
    rcases disk.copy_cases source target fault? with
      ⟨e, he⟩ | ⟨place, bytes, dest, disk', hplace, hentry, hdest, hchange, ⟨n, e, hfault, he⟩ | ⟨hheld, he⟩⟩ <;>
      rw [he] at hcopy
    · exact ⟨_, _, hcopy, .inl hframe⟩
    · exact ⟨_, _, hcopy, .inr ⟨⟨n, e, hfault⟩, hallowed, dest, hchange.sameDirectories.locate hdest,
        hframe.trans (hchange.frame _)⟩⟩
    · refine ⟨_, _, hcopy, hallowed, dest, bytes, hchange.sameDirectories.locate hdest,
        hframe.trans (hchange.frame _), read_before hframe hsource hplace hentry, ?_⟩
      have hsourceRead := hchange.read_eq hheld hplace hentry
      have htargetRead := read_of_locate (hchange.sameDirectories.locate hdest) hheld
      rw [hchange.sameDirectories.locate hplace]
      by_cases hsame : place = dest
      · simp only [hsame, if_true] at hsourceRead htargetRead ⊢
        exact ⟨hsourceRead, htargetRead⟩
      · simp only [Except.ok.injEq, hsame, if_false] at hsourceRead htargetRead ⊢
        exact ⟨hsourceRead, htargetRead⟩

/-- Copying a file onto itself succeeds and empties the file. That overwriting is not asked for does not help
when nothing is seen at the destination until the directories above it are made. -/
theorem copy_loses_source :
    let w : World := { disk := { entries := [(["a.txt"], .file "data".toUTF8)] }, now := default }
    ∀ call ∈ [("a.txt", true), ("x/../a.txt", false)],
      (copy "a.txt" call.1 call.2 none w).1.isOk = true ∧
        (copy "a.txt" call.1 call.2 none w).2.disk.read "a.txt" = .ok .empty := by
  decide

end Services

end Scriptorium
