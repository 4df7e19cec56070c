import Mathlib.Data.List.Forall2
import Mathlib.Data.Nat.Digits.Defs
import Mathlib.Tactic.NormNum
import Scenograph.Source.Files

namespace Scenograph

namespace Fingerprint

def valueOf (bytes : List UInt8) : Nat :=
  Nat.ofDigits 256 (bytes.map UInt8.toNat)

inductive Framed : List UInt8 → List String → Prop where
  | nil : Framed [] []
  | cons {width rest : List UInt8} {text : String} {texts : List String}
      (hlength : width.length = 8) (hvalue : valueOf width = text.utf8ByteSize)
      (h : Framed rest texts) : Framed (width ++ (textBytes text ++ rest)) (text :: texts)

def Fit (texts : List String) : Prop :=
  ∀ text ∈ texts, text.utf8ByteSize < 2 ^ 64

instance (texts : List String) : Decidable (Fit texts) :=
  inferInstanceAs (Decidable (∀ text ∈ texts, _))

theorem toList_loop (bytes : ByteArray) (i : Nat) (front : List UInt8) :
    ByteArray.toList.loop bytes i front = front.reverse ++ bytes.data.toList.drop i := by
  induction i, front using ByteArray.toList.loop.induct bytes with
  | case1 i front hi ih =>
      have hget : bytes.data.toList.drop i = bytes.get! i :: bytes.data.toList.drop (i + 1) := by
        rw [List.drop_eq_getElem_cons (by simpa using hi)]
        simp [ByteArray.get!, getElem!_pos, hi]
      rw [ByteArray.toList.loop, if_pos hi, ih, hget]
      simp
  | case2 i front hi =>
      rw [ByteArray.toList.loop, if_neg hi, List.drop_eq_nil_of_le (by simpa using hi)]
      simp

theorem textBytes_eq (text : String) : textBytes text = text.toByteArray.data.toList := by
  rw [textBytes, String.toUTF8, ByteArray.toList, toList_loop]
  rfl

theorem length_textBytes (text : String) : (textBytes text).length = text.utf8ByteSize := by
  rw [textBytes_eq, Array.length_toList, ← String.size_toByteArray]
  rfl

theorem textBytes_injective : Function.Injective textBytes := by
  intro text other h
  rw [textBytes_eq, textBytes_eq, Array.toList_inj] at h
  exact String.toByteArray_inj.1 (ByteArray.ext h)

theorem toNat_lt_of_mem (bytes : List UInt8) : ∀ n ∈ bytes.map UInt8.toNat, n < 256 := by
  intro n hn
  obtain ⟨b, -, rfl⟩ := List.mem_map.1 hn
  exact b.toNat_lt

theorem valueOf_lt {bytes : List UInt8} (h : bytes.length = 8) : valueOf bytes < 2 ^ 64 := by
  have hlt := Nat.ofDigits_lt_base_pow_length (by norm_num) (toNat_lt_of_mem bytes)
  rw [List.length_map, h] at hlt
  exact hlt

theorem valueOf_inj {bytes others : List UInt8} (hlength : bytes.length = others.length)
    (h : valueOf bytes = valueOf others) : bytes = others := by
  have hmap : bytes.map UInt8.toNat = others.map UInt8.toNat :=
    Nat.ofDigits_inj_of_len_eq (by norm_num) (by simpa using hlength)
      (toNat_lt_of_mem bytes) (toNat_lt_of_mem others) h
  exact List.map_injective_iff.2 (fun _ _ => UInt8.toNat_inj.1) hmap

theorem length_littleEndian8 (n : Nat) : (littleEndian8 n).length = 8 := rfl

theorem byte_add (n shift : Nat) :
    (UInt8.ofNat (n >>> shift)).toNat + 256 * (n >>> (shift + 8)) = n >>> shift := by
  rw [UInt8.toNat_ofNat', Nat.shiftRight_add, Nat.shiftRight_eq_div_pow (n >>> shift) 8]
  exact Nat.mod_add_div _ _

theorem valueOf_littleEndian8 {n : Nat} (h : n < 2 ^ 64) : valueOf (littleEndian8 n) = n := by
  have hend : n >>> (56 + 8) = 0 := by
    rw [Nat.shiftRight_eq_div_pow, Nat.div_eq_of_lt h]
  have hlast : (UInt8.ofNat (n >>> 56)).toNat + 256 * 0 = n >>> 56 := hend ▸ byte_add n 56
  simp only [valueOf, littleEndian8, List.map_cons, List.map_nil, Nat.ofDigits_cons,
    Nat.ofDigits_nil]
  rw [hlast, byte_add n 48, byte_add n 40, byte_add n 32, byte_add n 24, byte_add n 16,
    byte_add n 8, byte_add n 0, Nat.shiftRight_zero]

theorem Framed.fit {bytes : List UInt8} {texts : List String} (h : Framed bytes texts) :
    Fit texts := by
  induction h with
  | nil => simp [Fit]
  | cons hlength hvalue _ ih => exact List.forall_mem_cons.2 ⟨hvalue ▸ valueOf_lt hlength, ih⟩

theorem Framed.eq_stream {bytes : List UInt8} {texts : List String} (h : Framed bytes texts) :
    bytes = stream texts := by
  induction h with
  | nil => rfl
  | @cons width rest text texts hlength hvalue _ ih =>
      have hfit : text.utf8ByteSize < 2 ^ 64 := hvalue ▸ valueOf_lt hlength
      have hwidth : width = littleEndian8 (textBytes text).length := by
        apply valueOf_inj hlength
        rw [hvalue, length_textBytes, valueOf_littleEndian8 hfit]
      rw [ih, hwidth, stream, stream, List.flatMap_cons, part, List.append_assoc]

theorem framed_stream {texts : List String} (h : Fit texts) : Framed (stream texts) texts := by
  induction texts with
  | nil => exact .nil
  | cons text texts ih =>
      obtain ⟨htext, htexts⟩ := List.forall_mem_cons.1 h
      rw [stream, List.flatMap_cons, part, List.append_assoc, length_textBytes]
      exact .cons (length_littleEndian8 _) (valueOf_littleEndian8 htext) (ih htexts)

theorem framed_iff {bytes : List UInt8} {texts : List String} :
    Framed bytes texts ↔ Fit texts ∧ bytes = stream texts := by
  constructor
  · exact fun h => ⟨h.fit, h.eq_stream⟩
  · rintro ⟨h, rfl⟩
    exact framed_stream h

-- a text is cut off at the length in front of it, so what it looks like does not matter
theorem Framed.unique {bytes : List UInt8} {texts others : List String} (h : Framed bytes texts)
    (h' : Framed bytes others) : texts = others := by
  induction h generalizing others with
  | nil =>
      generalize hbytes : ([] : List UInt8) = bytes at h'
      cases h' with
      | nil => rfl
      | cons hlength =>
          rw [(List.append_eq_nil_iff.1 hbytes.symm).1] at hlength
          cases hlength
  | @cons width rest text texts hlength hvalue _ ih =>
      generalize hbytes : width ++ (textBytes text ++ rest) = bytes at h'
      cases h' with
      | nil =>
          rw [(List.append_eq_nil_iff.1 hbytes).1] at hlength
          cases hlength
      | @cons width' rest' text' texts' hlength' hvalue' h' =>
          obtain ⟨rfl, hbehind⟩ := List.append_inj hbytes (hlength.trans hlength'.symm)
          have hsize : (textBytes text).length = (textBytes text').length := by
            rw [length_textBytes, length_textBytes, ← hvalue, ← hvalue']
          obtain ⟨htext, rfl⟩ := List.append_inj hbehind hsize
          rw [textBytes_injective htext, ih h']

theorem stream_inj {texts others : List String} (htexts : Fit texts) (hothers : Fit others) :
    stream texts = stream others ↔ texts = others := by
  constructor
  · intro h
    exact (framed_stream htexts).unique (h ▸ framed_stream hothers)
  · rintro rfl
    rfl

end Fingerprint

namespace Generated

def texts (x : Generated) : List String :=
  x.files.map (·.text)

def stream (x : Generated) : List UInt8 :=
  Fingerprint.stream x.texts

theorem fingerprint_eq (x : Generated) : x.fingerprint = Sha256.digest x.stream := rfl

theorem texts_eq_iff {x y : Generated} :
    x.texts = y.texts ↔ List.Forall₂ (fun f f' => f.text = f'.text) x.files y.files := by
  rw [texts, texts, ← List.forall₂_eq_eq_eq, List.forall₂_map_left_iff, List.forall₂_map_right_iff]

end Generated

theorem stream_determines_texts (texts others : List String) (x y : Generated) :
    (∀ bytes, Fingerprint.Framed bytes texts
        ↔ Fingerprint.Fit texts ∧ bytes = Fingerprint.stream texts)
      ∧ (Fingerprint.Fit texts → Fingerprint.Fit others →
        (Fingerprint.stream texts = Fingerprint.stream others ↔ texts = others))
      ∧ x.fingerprint = Sha256.digest x.stream
      ∧ (Fingerprint.Fit x.texts → Fingerprint.Fit y.texts →
        (x.stream = y.stream
          ↔ List.Forall₂ (fun f f' => f.text = f'.text) x.files y.files)) := by
  refine ⟨fun _ => Fingerprint.framed_iff, Fingerprint.stream_inj, x.fingerprint_eq, ?_⟩
  intro hx hy
  rw [← Generated.texts_eq_iff]
  exact Fingerprint.stream_inj hx hy

def disguisedTexts : List String :=
  ["ab\x01\x00\x00\x00\x00\x00\x00\x00c"]

def splitFiles (header definitions : String) : Generated where
  language := .cppWinRT
  files := [⟨"Scene.h", header⟩, ⟨"Scene.cpp", definitions⟩]
  assets := []

theorem stream_determines_texts_disguisedTexts :
    Fingerprint.stream ["ab", "c"] ≠ Fingerprint.stream disguisedTexts
      ∧ (Fingerprint.stream ["ab", "c"]).drop 8 = (Fingerprint.stream disguisedTexts).drop 8
      ∧ (splitFiles "ab" "c").stream ≠ (splitFiles "a" "bc").stream := by
  obtain ⟨-, htexts, -, hfiles⟩ := stream_determines_texts ["ab", "c"] disguisedTexts
    (splitFiles "ab" "c") (splitFiles "a" "bc")
  refine ⟨fun h => ?_, by decide +kernel, fun h => ?_⟩
  · exact absurd ((htexts (by decide) (by decide)).1 h) (by decide)
  · cases (hfiles (by decide) (by decide)).1 h with
    | cons hheader _ => exact absurd hheader (by decide)

end Scenograph
