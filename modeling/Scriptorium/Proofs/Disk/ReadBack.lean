import Scriptorium.Proofs.Disk.Changes
import Scriptorium.Text.Decoding

/-!
# Reading back what was written

A file that was written with success is read back as it was written (`Disk.read_write`), and text comes back
as the same text.
-/

namespace Scriptorium

theorem fromUTF8?_toUTF8 (s : String) : String.fromUTF8? s.toUTF8 = some s := dif_pos s.isValidUTF8

theorem toUTF8_of_fromUTF8? {b : ByteArray} {s : String} (h : String.fromUTF8? b = some s) : s.toUTF8 = b := by
  obtain ⟨hvalid, hs⟩ := Option.dite_none_right_eq_some.1 h
  rw [← Option.some.inj hs]
  rfl

theorem Text.decodeAny_toUTF8 (s : String) : decodeAny s.toUTF8 = s := by
  rw [decodeAny, fromUTF8?_toUTF8]

namespace Disk

variable {d d' : Disk} {at_ : Location} {path : String} {bytes : Bytes}

theorem read_of_locate (hl : d.locate path = .ok at_) (hf : d.find? at_ = some (.file bytes)) :
    d.read path = .ok bytes := by
  rw [read, stat_of_locate hl, hf]
  rfl

/-- What was written is read. -/
theorem read_write (h : d.write path bytes = (.ok (), d')) : d'.read path = .ok bytes := by
  rcases d.write_cases path bytes none with ⟨e, he⟩ | ⟨at_, hl, ⟨n, e, -, he⟩ | he⟩ <;> rw [h] at he
  · cases he
  · cases he
  · obtain rfl := (Prod.mk.inj he).2
    obtain ⟨hlocate, hdir⟩ := locate_of_locateForWriting hl
    have hchange := ChangesFile.setEntry hdir bytes
    exact read_of_locate (hchange.sameDirectories.locate hlocate) (find?_setEntry_self hdir bytes)

theorem readText_write {text : String} (h : d.write path text.toUTF8 = (.ok (), d')) :
    d'.readText path = .ok text := by
  rw [readText, read_write h]
  simp only [bind, Except.bind, fromUTF8?_toUTF8]
  rfl

end Disk

end Scriptorium
