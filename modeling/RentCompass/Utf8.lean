import RentCompass.Sha256

/-!
# Reading UTF-8 piece by piece

A decoder takes bytes one at a time and keeps what it has of an unfinished character, so that the
text does not depend on where a stream of bytes is cut. A byte that cannot go on is replaced by
U+FFFD and read again as the first of a character.
-/

namespace Utf8

open Sha256

/-- What stands for bytes that are no character. -/
abbrev replacement : Nat := 0xFFFD

/-- The character so far, the bytes it still needs, and the range of the next one. -/
structure Decoder where
  point : Nat
  needed : Nat
  lower : Nat
  upper : Nat
  deriving DecidableEq

namespace Decoder

/-- Between two characters. -/
def start : Decoder := ⟨0, 0, 0x80, 0xBF⟩

/-- The first byte of a character. The ranges keep out overlong forms, surrogates and what is
beyond U+10FFFF. -/
def lead (b : Nat) : Decoder × Text :=
  if b < 0x80 then (start, [b])
  else if 0xC2 ≤ b ∧ b ≤ 0xDF then (⟨b % 32, 1, 0x80, 0xBF⟩, [])
  else if 0xE0 ≤ b ∧ b ≤ 0xEF then
    (⟨b % 16, 2, if b = 0xE0 then 0xA0 else 0x80, if b = 0xED then 0x9F else 0xBF⟩, [])
  else if 0xF0 ≤ b ∧ b ≤ 0xF4 then
    (⟨b % 8, 3, if b = 0xF0 then 0x90 else 0x80, if b = 0xF4 then 0x8F else 0xBF⟩, [])
  else (start, [replacement])

def feed (d : Decoder) (b : Nat) : Decoder × Text :=
  if d.needed = 0 then lead b
  else if b < d.lower ∨ d.upper < b then ((lead b).1, replacement :: (lead b).2)
  else if d.needed = 1 then (start, [d.point * 64 + b % 64])
  else (⟨d.point * 64 + b % 64, d.needed - 1, 0x80, 0xBF⟩, [])

/-- A piece of the stream. -/
def decode : Decoder → List Nat → Decoder × Text
  | d, [] => (d, [])
  | d, b :: bytes =>
    let (d, t) := d.feed b
    let (d, u) := decode d bytes
    (d, t ++ u)

/-- The end of the stream: an unfinished character is an error. -/
def flush (d : Decoder) : Text := if d.needed = 0 then [] else [replacement]

@[simp] lemma decode_nil (d : Decoder) : d.decode [] = (d, []) := rfl

lemma decode_cons (d : Decoder) (b : Nat) (bytes : List Nat) :
    d.decode (b :: bytes) =
      (((d.feed b).1.decode bytes).1, (d.feed b).2 ++ ((d.feed b).1.decode bytes).2) := rfl

/-- Two pieces are read as one. -/
lemma decode_append (d : Decoder) (a b : List Nat) :
    d.decode (a ++ b) =
      (((d.decode a).1.decode b).1, (d.decode a).2 ++ ((d.decode a).1.decode b).2) := by
  induction a generalizing d with
  | nil => simp
  | cons c a ih =>
    rw [List.cons_append, decode_cons, decode_cons, ih]
    simp

lemma mem_flush {d : Decoder} {c : Nat} (h : c ∈ d.flush) : c = replacement := by
  unfold flush at h
  split_ifs at h
  · simp at h
  · simpa using h

/-! ### What was encoded -/

/-- A code point that UTF-8 can encode. -/
def Scalar (c : Nat) : Prop := c < 0x110000 ∧ Text.isSurrogate c = false

/-- A byte that goes on and a character that still needs more. -/
lemma feed_more {d : Decoder} {b : Nat} (hneeded : 1 < d.needed) (hlower : d.lower ≤ b)
    (hupper : b ≤ d.upper) : d.feed b = (⟨d.point * 64 + b % 64, d.needed - 1, 0x80, 0xBF⟩, []) := by
  have hzero : d.needed ≠ 0 := by omega
  have hin : ¬(b < d.lower ∨ d.upper < b) := by omega
  have hone : d.needed ≠ 1 := by omega
  rw [feed, if_neg hzero, if_neg hin, if_neg hone]

/-- The last byte of a character. -/
lemma feed_last {d : Decoder} {b : Nat} (hneeded : d.needed = 1) (hlower : d.lower ≤ b)
    (hupper : b ≤ d.upper) : d.feed b = (start, [d.point * 64 + b % 64]) := by
  have hzero : d.needed ≠ 0 := by omega
  have hin : ¬(b < d.lower ∨ d.upper < b) := by omega
  rw [feed, if_neg hzero, if_neg hin, if_pos hneeded]

lemma feed_start (b : Nat) : start.feed b = lead b := rfl

lemma lead_two {b : Nat} (h : 0xC2 ≤ b) (h' : b ≤ 0xDF) : lead b = (⟨b % 32, 1, 0x80, 0xBF⟩, []) := by
  rw [lead, if_neg (by omega), if_pos ⟨h, h'⟩]

lemma lead_three {b : Nat} (h : 0xE0 ≤ b) (h' : b ≤ 0xEF) : lead b =
    (⟨b % 16, 2, if b = 0xE0 then 0xA0 else 0x80, if b = 0xED then 0x9F else 0xBF⟩, []) := by
  rw [lead, if_neg (by omega), if_neg (by omega), if_pos ⟨h, h'⟩]

lemma lead_four {b : Nat} (h : 0xF0 ≤ b) (h' : b ≤ 0xF4) : lead b =
    (⟨b % 8, 3, if b = 0xF0 then 0x90 else 0x80, if b = 0xF4 then 0x8F else 0xBF⟩, []) := by
  rw [lead, if_neg (by omega), if_neg (by omega), if_neg (by omega), if_pos ⟨h, h'⟩]

/-- The bytes of a character are read as the character. -/
lemma decode_utf8Char {c : Nat} (h : Scalar c) : start.decode (utf8Char c) = (start, [c]) := by
  obtain ⟨hmax, hsurrogate⟩ := h
  have hrange : c < 0xD800 ∨ 0xDFFF < c := by
    unfold Text.isSurrogate at hsurrogate
    simp at hsurrogate
    omega
  unfold utf8Char
  split_ifs with h1 h2 h3
  · rw [decode_cons, feed_start, lead, if_pos h1]
    simp
  · rw [decode_cons, feed_start, lead_two (by omega) (by omega), decode_cons,
      feed_last rfl (by simp) (by simp; omega)]
    have hc : (0xC0 + c / 64) % 32 * 64 + (0x80 + c % 64) % 64 = c := by omega
    simp only [decode_nil, List.append_nil, List.nil_append, hc]
  · rw [decode_cons, feed_start, lead_three (by omega) (by omega), decode_cons,
      feed_more (by simp) (by simp only; split_ifs <;> omega) (by simp only; split_ifs <;> omega),
      decode_cons, feed_last rfl (by simp) (by simp; omega)]
    have hc : ((0xE0 + c / 4096) % 16 * 64 + (0x80 + c / 64 % 64) % 64) * 64 +
        (0x80 + c % 64) % 64 = c := by omega
    simp only [decode_nil, List.append_nil, List.nil_append, hc]
  · rw [decode_cons, feed_start, lead_four (by omega) (by omega), decode_cons,
      feed_more (by simp) (by simp only; split_ifs <;> omega) (by simp only; split_ifs <;> omega),
      decode_cons, feed_more (by simp) (by simp) (by simp; omega),
      decode_cons, feed_last rfl (by simp) (by simp; omega)]
    have hc : (((0xF0 + c / 262144) % 8 * 64 + (0x80 + c / 4096 % 64) % 64) * 64 +
        (0x80 + c / 64 % 64) % 64) * 64 + (0x80 + c % 64) % 64 = c := by omega
    simp only [decode_nil, List.append_nil, List.nil_append, hc]

/-- The bytes of a text are read as the text. -/
theorem decode_utf8 {t : Text} (h : ∀ c ∈ t, Scalar c) : start.decode (utf8 t) = (start, t) := by
  induction t with
  | nil => rfl
  | cons c t ih =>
    have hrest : start.decode (utf8 t) = (start, t) := ih fun d hd => h d (by simp [hd])
    have hbytes : utf8 (c :: t) = utf8Char c ++ utf8 t := rfl
    rw [hbytes, decode_append, decode_utf8Char (h c (by simp)), hrest]
    rfl

/-- Of the first bytes of a text, the first of its characters are read. -/
theorem decode_of_append_eq {t : Text} (h : ∀ c ∈ t, Scalar c) {a b : List Nat}
    (hab : a ++ b = utf8 t) : ∃ rest, t = (start.decode a).2 ++ rest := by
  have hwhole := decode_utf8 h
  rw [← hab, decode_append] at hwhole
  exact ⟨_, (congrArg Prod.snd hwhole).symm⟩

/-! ### Bytes that are characters by themselves -/

lemma lower_lead (b : Nat) : 0x80 ≤ (lead b).1.lower := by
  unfold lead
  split_ifs <;> simp [start]

lemma lower_feed (d : Decoder) (b : Nat) : 0x80 ≤ (d.feed b).1.lower := by
  unfold feed
  split_ifs
  · exact lower_lead b
  · exact lower_lead b
  · exact Nat.le_refl _
  · exact Nat.le_refl _

lemma lower_decode {d : Decoder} (h : 0x80 ≤ d.lower) (bytes : List Nat) :
    0x80 ≤ (d.decode bytes).1.lower := by
  induction bytes generalizing d with
  | nil => exact h
  | cons b bytes ih => exact ih (lower_feed d b)

/-- A byte below 0x80 goes on with no character. -/
lemma feed_ascii {d : Decoder} (h : 0x80 ≤ d.lower) {b : Nat} (hb : b < 0x80) :
    (d.feed b).2 ≠ [] := by
  have hlead : (lead b).2 = [b] := by rw [lead, if_pos hb]
  unfold feed
  split_ifs with hzero hout
  · simp [hlead]
  · simp
  · omega
  · omega

/-- Bytes that end with such a byte make up text, whatever came before. -/
lemma decode_ascii_ne_nil {d : Decoder} (h : 0x80 ≤ d.lower) (bytes : List Nat) {b : Nat}
    (hb : b < 0x80) : (d.decode (bytes ++ [b])).2 ≠ [] := by
  have hlast := feed_ascii (lower_decode h bytes) hb
  rw [decode_append, decode_cons]
  simp [hlast]

end Decoder

end Utf8
