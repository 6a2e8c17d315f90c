import A64Machine.Proofs.BitString.Rotations

/-!
The bit strings that there can be: those that the operations make, from zeros, from a word or from
a text of digits on.  All of them are in their proper form.
-/

namespace A64Machine

namespace BitString

/-- Whether some operations make a string. -/
inductive Reachable : BitString → Prop
  | zeros (width : Nat) : Reachable (.zeros width)
  | ofDoubleword (width : Nat) (value : BitVec 64) : Reachable (.ofDoubleword width value)
  | parse {digits : String} {b : BitString} (hparse : BitString.parse digits = .ok b) :
    Reachable b
  | set {b after : BitString} (hb : Reachable b) {position : Nat}
    (hset : b.set position = .ok after) : Reachable after
  | reset {b after : BitString} (hb : Reachable b) {position : Nat}
    (hreset : b.reset position = .ok after) : Reachable after
  | flip {b after : BitString} (hb : Reachable b) {position : Nat}
    (hflip : b.flip position = .ok after) : Reachable after
  | setTo {b after : BitString} (hb : Reachable b) {position : Nat} {value : Bool}
    (hset : b.setTo position value = .ok after) : Reachable after
  | setAll {b : BitString} (hb : Reachable b) : Reachable b.setAll
  | resetAll {b : BitString} (hb : Reachable b) : Reachable b.resetAll
  | not {b : BitString} (hb : Reachable b) : Reachable b.not
  | resize {b : BitString} (hb : Reachable b) (width : Nat) : Reachable (b.resize width)
  | concat {high low : BitString} (hhigh : Reachable high) (hlow : Reachable low) :
    Reachable (high.concat low)
  | rotateRight {b : BitString} (hb : Reachable b) (amount : Nat) :
    Reachable (b.rotateRight amount)
  | replicate {b : BitString} (hb : Reachable b) (count : Nat) : Reachable (b.replicate count)
  | and {a b : BitString} (ha : Reachable a) (hb : Reachable b) : Reachable (a.and b)
  | or {a b : BitString} (ha : Reachable a) (hb : Reachable b) : Reachable (a.or b)
  | xor {a b : BitString} (ha : Reachable a) (hb : Reachable b) : Reachable (a.xor b)
  | shiftLeft {b : BitString} (hb : Reachable b) (amount : Nat) : Reachable (b.shiftLeft amount)
  | shiftRight {b : BitString} (hb : Reachable b) (amount : Nat) : Reachable (b.shiftRight amount)

section Changes

variable {b after : BitString} {i : Nat} (hb : b.Canonical)

theorem lt_of_update_eq_ok {f : BitVec 64 → BitVec 64 → BitVec 64}
    (hupdate : b.update i f = .ok after) : i < b.width := by
  unfold update at hupdate
  split at hupdate
  next hin => exact hin
  next => contradiction

include hb

theorem Canonical.of_setTo {value : Bool} (hset : b.setTo i value = .ok after) :
    after.Canonical := by
  obtain ⟨written, hwritten, hbits⟩ := setTo_eq_ok hb (lt_of_update_eq_ok hset) value
  obtain rfl := Except.ok.inj (hwritten.symm.trans hset)
  exact hbits.canonical

theorem Canonical.of_flip (hflip : b.flip i = .ok after) : after.Canonical := by
  obtain ⟨flipped, hflipped, hbits⟩ := flip_eq_ok hb (lt_of_update_eq_ok hflip)
  obtain rfl := Except.ok.inj (hflipped.symm.trans hflip)
  exact hbits.canonical

/-- Reading digits only sets bits. -/
theorem Canonical.of_readDigits {digits : List Char} (hread : readDigits digits i b = .ok after) :
    after.Canonical := by
  induction digits generalizing i b with
  | nil => exact Except.ok.inj hread ▸ hb
  | cons c rest ih =>
    unfold readDigits at hread
    split at hread
    next hzero => exact ih hb hread
    next =>
      split at hread
      next hone =>
        cases hset : b.set i with
        | error refusal =>
          rw [hset] at hread
          contradiction
        | ok written =>
          rw [hset] at hread
          exact ih (hb.of_setTo hset) hread
      next => contradiction

end Changes

/-- What the operations make is in its proper form. -/
theorem Reachable.canonical {b : BitString} (hb : b.Reachable) : b.Canonical := by
  induction hb with
  | zeros width => exact (hasBits_zeros width).canonical
  | ofDoubleword width value => exact (hasBits_ofDoubleword width value).canonical
  | parse hparse => exact (hasBits_zeros _).canonical.of_readDigits hparse
  | set _ hset ih => exact ih.of_setTo hset
  | reset _ hreset ih => exact ih.of_setTo hreset
  | flip _ hflip ih => exact ih.of_flip hflip
  | setTo _ hset ih => exact ih.of_setTo hset
  | setAll => exact (hasBits_setAll _).canonical
  | resetAll => exact (hasBits_zeros _).canonical
  | not _ ih => exact (hasBits_not ih).canonical
  | resize _ width ih => exact (hasBits_resize ih width).canonical
  | concat _ _ ihhigh ihlow => exact (hasBits_concat ihhigh ihlow).canonical
  | rotateRight _ amount ih => exact (hasBits_rotateRight ih amount).canonical
  | replicate _ count ih => exact (hasBits_replicate ih count).canonical
  | and => exact (hasBits_zipWith (fun _ _ _ => BitVec.getLsbD_and) _ _).canonical
  | or => exact (hasBits_zipWith (fun _ _ _ => BitVec.getLsbD_or) _ _).canonical
  | xor => exact (hasBits_zipWith (fun _ _ _ => BitVec.getLsbD_xor) _ _).canonical
  | shiftLeft _ amount ih => exact (hasBits_shiftLeft ih amount).canonical
  | shiftRight _ amount ih => exact (hasBits_shiftRight ih amount).canonical

end BitString

end A64Machine
