import Mathlib.Data.Nat.Find
import Stencil.Proofs.Boundaries

/-!
# Texts asked for one at a time

A reader is asked for the next text until there is none or it fails. Each time it reads until a read
completes a character, and keeps the bytes of the character that the read cuts. These are at most
three, since no character has more than four bytes. So the texts are those that all reads give: they
make up the text that the bytes encode, or a beginning of it where the bytes go wrong.

## Main definitions

* `Bytes.Reader`: the bytes held back, and what further reads give
* `Bytes.Reader.next`: the next text
* `Bytes.Reader.Calls`: asking for texts until there is none
* `Bytes.IsLongest`: the longest text that bytes begin with

## Main results

* `Bytes.Cut.length_le`: at most three bytes are held back
* `Bytes.Reader.calls_iff`: the texts asked for are those of all reads
* `Bytes.texts_exact`: the texts, the outcome, and what is held back
-/

namespace Stencil.Bytes

/-! ### What is held back -/

/-- A character has at most four bytes, so at most two can follow the first of an incomplete one. -/
theorem length_le_of_front {b : UInt8} {rest : List UInt8} (h : front b rest = .incomplete) :
    rest.length ≤ 2 := by
  by_cases hone : b.toNat < 0x80
  · rw [front_one rest hone] at h
    cases h
  by_cases hinvalid : b.toNat < 0xC2 ∨ 0xF5 ≤ b.toNat
  · rw [front_invalid rest (by omega)] at h
    cases h
  by_cases htwo : b.toNat < 0xE0
  · rw [front_two rest (by omega) htwo] at h
    exact Nat.le_succ_of_le (Nat.le_of_lt (length_lt_of_frontAfter h))
  by_cases hthree : b.toNat < 0xF0
  · rw [front_three rest (by omega) hthree] at h
    exact Nat.le_of_lt (length_lt_of_frontAfter h)
  · rw [front_four rest (by omega) (by omega)] at h
    exact Nat.le_of_lt_succ (length_lt_of_frontAfter h)

theorem Cut.length_le {held : List UInt8} (hcut : Cut held) : held.length ≤ 3 := by
  cases held with
  | nil => exact Nat.zero_le 3
  | cons b rest => exact Nat.succ_le_succ (length_le_of_front (hcut b rest rfl))

/-! ### Readers -/

/-- A reader between two reads: the bytes held back, and what the further reads give. -/
structure Reader where
  held : List UInt8
  reads : List (List UInt8)

namespace Reader

/-- The text of the first read that completes a character, with the reader after it; none if the
reads come to their end. -/
def nextAfter (held : List UInt8) :
    List (List UInt8) → Except EncodingFault (Option (List Char × Reader))
  | [] => if held.isEmpty then .ok none else .error .truncated
  | read :: reads =>
    match decode (held ++ read) with
    | .error e => .error e
    | .ok (text, left) =>
      if text.isEmpty then nextAfter left reads else .ok (some (text, ⟨left, reads⟩))

/-- The next text, with the reader after it, or none at the end. -/
def next (r : Reader) : Except EncodingFault (Option (List Char × Reader)) :=
  nextAfter r.held r.reads

/-- Asking for texts until there is none or the reader fails gives these texts. -/
inductive Calls : Reader → List (List Char) → Except EncodingFault Unit → Prop
  | done {r : Reader} (h : r.next = .ok none) : Calls r [] (.ok ())
  | fail {r : Reader} {e : EncodingFault} (h : r.next = .error e) : Calls r [] (.error e)
  | more {r after : Reader} {text : List Char} {texts : List (List Char)}
      {outcome : Except EncodingFault Unit} (h : r.next = .ok (some (text, after)))
      (hrest : Calls after texts outcome) : Calls r (text :: texts) outcome

/-- The second reader is the first one some reads later. -/
inductive Later (r : Reader) : Reader → Prop
  | refl : Later r r
  | read {held read left : List UInt8} {reads : List (List UInt8)} {text : List Char}
      (h : Later r ⟨held, read :: reads⟩) (hdecode : decode (held ++ read) = .ok (text, left)) :
      Later r ⟨left, reads⟩

variable {r s : Reader} {held read left : List UInt8} {reads : List (List UInt8)}
  {text : List Char} {texts others : List (List Char)} {outcome outcome' : Except EncodingFault Unit}

theorem next_cons (hdecode : decode (held ++ read) = .ok (text, left)) :
    next ⟨held, read :: reads⟩ =
      if text.isEmpty then next ⟨left, reads⟩ else .ok (some (text, ⟨left, reads⟩)) := by
  simp only [next, nextAfter, hdecode]

/-- A read that completes no character does not show. -/
theorem Calls.of_next_eq (h : Calls s texts outcome) (hnext : r.next = s.next) :
    Calls r texts outcome := by
  cases h with
  | done h => exact .done (hnext.trans h)
  | fail h => exact .fail (hnext.trans h)
  | more h hrest => exact .more (hnext.trans h) hrest

theorem Calls.unique (h : Calls r texts outcome) (h' : Calls r others outcome') :
    texts = others ∧ outcome = outcome' := by
  induction h generalizing others outcome' with
  | done h =>
    cases h' with
    | done => exact ⟨rfl, rfl⟩
    | fail h' => rw [h] at h'; cases h'
    | more h' => rw [h] at h'; cases h'
  | fail h =>
    cases h' with
    | done h' => rw [h] at h'; cases h'
    | fail h' =>
      rw [h] at h'
      cases h'
      exact ⟨rfl, rfl⟩
    | more h' => rw [h] at h'; cases h'
  | more h _ ih =>
    cases h' with
    | done h' => rw [h] at h'; cases h'
    | fail h' => rw [h] at h'; cases h'
    | more h' hrest =>
      rw [h] at h'
      cases h'
      obtain ⟨rfl, rfl⟩ := ih hrest
      exact ⟨rfl, rfl⟩

/-- Asking ends, after the texts of all reads. -/
theorem calls_textsAfter (held : List UInt8) (reads : List (List UInt8)) :
    Calls ⟨held, reads⟩ (textsAfter held reads).1 (textsAfter held reads).2 := by
  induction reads generalizing held with
  | nil =>
    rw [textsAfter]
    cases held with
    | nil => exact .done rfl
    | cons b rest => exact .fail rfl
  | cons read reads ih =>
    rw [textsAfter]
    cases hdecode : decode (held ++ read) with
    | error e => exact .fail (by simp only [next, nextAfter, hdecode])
    | ok decoded =>
      obtain ⟨text, left⟩ := decoded
      cases text with
      | nil => exact (ih left).of_next_eq (next_cons hdecode)
      | cons c text => exact .more (next_cons hdecode) (ih left)

theorem calls_iff :
    Calls ⟨held, reads⟩ texts outcome ↔ textsAfter held reads = (texts, outcome) := by
  constructor
  · intro h
    obtain ⟨htexts, houtcome⟩ := (calls_textsAfter held reads).unique h
    exact Prod.ext htexts houtcome
  · intro h
    have hcalls := calls_textsAfter held reads
    rwa [h] at hcalls

/-- The reader after a call is some reads later. -/
theorem Later.next {after : Reader} (h : Later r s) (hnext : s.next = .ok (some (text, after))) :
    Later r after := by
  obtain ⟨held, reads⟩ := s
  induction reads generalizing held with
  | nil =>
    rw [Reader.next, nextAfter] at hnext
    split at hnext <;> cases hnext
  | cons read reads ih =>
    cases hdecode : decode (held ++ read) with
    | error e => simp only [Reader.next, nextAfter, hdecode] at hnext; cases hnext
    | ok decoded =>
      obtain ⟨found, left⟩ := decoded
      rw [next_cons hdecode] at hnext
      split at hnext
      · exact ih left (h.read hdecode) hnext
      · cases hnext
        exact h.read hdecode

theorem Later.cut (h : Later r s) (hcut : Cut r.held) : Cut s.held := by
  cases h with
  | refl => exact hcut
  | read _ hdecode => exact cut_of_decodeFrom hdecode

end Reader

/-! ### The texts -/

section Texts

variable {size : Nat} {held : List UInt8} {reads : List (List UInt8)}

/-- The texts are encoded at the front of the bytes, also where these go wrong later. -/
theorem encode_texts_isPrefix (held : List UInt8) (reads : List (List UInt8)) :
    encode (textsAfter held reads).1.flatten <+: held ++ reads.flatten := by
  induction reads generalizing held with
  | nil => exact List.nil_prefix
  | cons read reads ih =>
    rw [textsAfter]
    cases hdecode : decode (held ++ read) with
    | error e => exact List.nil_prefix
    | ok decoded =>
      obtain ⟨text, left⟩ := decoded
      simp only [flatten_keep, encode_append, List.flatten_cons]
      rw [← List.append_assoc, eq_of_decodeFrom hdecode, List.append_assoc]
      exact (List.prefix_append_right_inj _).2 (ih left)

/-- No text is empty, and each is made of the bytes held back and of one read. -/
theorem length_encode_le (hcut : Cut held) (hreads : ∀ read ∈ reads, read.length ≤ size) :
    ∀ text ∈ (textsAfter held reads).1, text ≠ [] ∧ (encode text).length ≤ size + 3 := by
  induction reads generalizing held with
  | nil => exact List.forall_mem_nil _
  | cons read reads ih =>
    obtain ⟨hread, hreads⟩ := List.forall_mem_cons.1 hreads
    rw [textsAfter]
    cases hdecode : decode (held ++ read) with
    | error e => exact List.forall_mem_nil _
    | ok decoded =>
      obtain ⟨text, left⟩ := decoded
      have hrest := ih (cut_of_decodeFrom hdecode) hreads
      cases text with
      | nil => exact hrest
      | cons c text =>
        refine List.forall_mem_cons.2 ⟨⟨List.cons_ne_nil c text, ?_⟩, hrest⟩
        have hlength := congrArg List.length (eq_of_decodeFrom hdecode)
        have hheld := hcut.length_le
        rw [List.length_append, List.length_append] at hlength
        omega

/-- A text that is encoded at the front of another one is the front of it. -/
theorem isPrefix_of_encode {first text : List Char} (h : encode first <+: encode text) :
    first <+: text := by
  obtain ⟨more, hmore⟩ := h
  have hself : encode first ++ [] = encode first := List.append_nil _
  obtain ⟨whole, none, left, hwhole, hfirst, hleft⟩ := exists_decodeFrom 0 hself
  obtain ⟨found, second, left', hfound, rfl, -⟩ := exists_decodeFrom 0 hmore
  obtain ⟨rfl, rfl⟩ := Prod.mk.inj (Except.ok.inj (hwhole.symm.trans hfound))
  -- All of the first text is decoded, since nothing that is left over is a whole character.
  rw [List.append_nil] at hleft
  rw [(cut_of_decodeFrom hwhole).eq_nil hleft, List.append_nil] at hfirst
  exact ⟨second, by rw [hfirst]⟩

/-- The text is the longest one that the bytes begin with. -/
structure IsLongest (bytes : List UInt8) (text : List Char) : Prop where
  begins : encode text <+: bytes
  longest : ∀ part, part <+: bytes → part.toByteArray.IsValidUTF8 →
    part.length ≤ (encode text).length

theorem exists_isLongest (bytes : List UInt8) : ∃ text, IsLongest bytes text := by
  classical
  let Begins (n : Nat) : Prop := ∃ text, encode text <+: bytes ∧ (encode text).length = n
  have hnil : Begins 0 := ⟨[], List.nil_prefix, rfl⟩
  obtain ⟨text, hbegins, hlength⟩ := Nat.findGreatest_spec (Nat.zero_le bytes.length) hnil
  refine ⟨text, hbegins, fun part hpart hvalid => ?_⟩
  obtain ⟨other, rfl⟩ := isValidUTF8_iff.1 hvalid
  rw [hlength]
  exact Nat.le_findGreatest hpart.length_le ⟨other, hpart, rfl⟩

theorem IsLongest.isPrefix {bytes : List UInt8} {text first : List Char}
    (h : IsLongest bytes text) (hfirst : encode first <+: bytes) : first <+: text := by
  have hlength := h.longest _ hfirst (isValidUTF8_iff.2 ⟨first, rfl⟩)
  exact isPrefix_of_encode (List.prefix_of_prefix_length_le hfirst h.begins hlength)

/-- **Decoding in reads.** Asking a reader for texts ends, however its reads cut the bytes. It ends
without a failure just if the bytes encode a text, and then the texts make up this text. After a
failure they make up a beginning of the longest text that the bytes begin with. No text is empty,
each takes at most three bytes more than the buffer, and between reads at most three bytes are held
back. -/
theorem texts_exact {size : Nat} {bytes : List UInt8} {reads : List (List UInt8)}
    (h : Reads size bytes reads) :
    ∃ chunks outcome, texts reads = (chunks, outcome) ∧
      (∀ chunks' outcome', Reader.Calls ⟨[], reads⟩ chunks' outcome' ↔
        chunks' = chunks ∧ outcome' = outcome) ∧
      (outcome = .ok () ↔ bytes.toByteArray.IsValidUTF8) ∧
      (outcome = .ok () → encode chunks.flatten = bytes) ∧
      (outcome ≠ .ok () → ∃ longest, IsLongest bytes longest ∧ chunks.flatten <+: longest) ∧
      (∀ chunk ∈ chunks, chunk ≠ [] ∧ (encode chunk).length ≤ max size 1 + 3) ∧
      ∀ r, Reader.Later ⟨[], reads⟩ r → r.held.length ≤ 3 ∧
        ∀ text after, r.next = .ok (some (text, after)) → Reader.Later ⟨[], reads⟩ after := by
  have hbytes : [] ++ reads.flatten = bytes := h.flatten
  have hdecoded {chunks : List (List Char)} (htexts : texts reads = (chunks, .ok ())) :
      encode chunks.flatten = bytes :=
    (eq_of_textsAfter htexts).symm.trans hbytes
  have hchunks := length_encode_le cut_nil h.length_le
  have hfront := encode_texts_isPrefix [] reads
  refine ⟨(texts reads).1, (texts reads).2, rfl, fun chunks' outcome' => ?_, ⟨fun hok => ?_, ?_⟩,
    fun hok => hdecoded (Prod.ext rfl hok), fun _ => ?_, hchunks,
    fun r hr => ⟨(hr.cut cut_nil).length_le, fun _ _ => hr.next⟩⟩
  · rw [Reader.calls_iff, Prod.ext_iff]
    exact and_congr eq_comm eq_comm
  · exact isValidUTF8_iff.2 ⟨_, hdecoded (Prod.ext rfl hok)⟩
  · intro hvalid
    obtain ⟨text, htext⟩ := isValidUTF8_iff.1 hvalid
    obtain ⟨found, hfound, -⟩ := exists_textsAfter cut_nil (hbytes.trans htext.symm)
    exact congrArg Prod.snd hfound
  · obtain ⟨longest, hlongest⟩ := exists_isLongest bytes
    rw [hbytes] at hfront
    exact ⟨longest, hlongest, hlongest.isPrefix hfront⟩

/-- Reads that cut a character of three bytes twice, and reads that find a surrogate in the second
byte of three. -/
theorem texts_exact_cut :
    (Reads 2 [0x61, 0xE2, 0x82, 0xAC] [[0x61, 0xE2], [0x82], [0xAC]] ∧
      texts [[0x61, 0xE2], [0x82], [0xAC]] = ([['a'], ['€']], .ok ()) ∧
      Reader.Calls ⟨[], [[0x61, 0xE2], [0x82], [0xAC]]⟩ [['a'], ['€']] (.ok ())) ∧
    Reads 0 [0x61, 0xED, 0xA0] [[0x61], [0xED], [0xA0]] ∧
      texts [[0x61], [0xED], [0xA0]] = ([['a']], .error (.invalid 1 0)) ∧
      ∃ longest, IsLongest [0x61, 0xED, 0xA0] longest ∧ ['a'] <+: longest := by
  have hreads : Reads 2 [0x61, 0xE2, 0x82, 0xAC] [[0x61, 0xE2], [0x82], [0xAC]] :=
    ⟨rfl, by decide, by decide⟩
  have hreads' : Reads 0 [0x61, 0xED, 0xA0] [[0x61], [0xED], [0xA0]] :=
    ⟨rfl, by decide, by decide⟩
  have htexts : texts [[0x61, 0xE2], [0x82], [0xAC]] = ([['a'], ['€']], .ok ()) := by
    decide +kernel
  have htexts' : texts [[0x61], [0xED], [0xA0]] = ([['a']], .error (.invalid 1 0)) := by
    decide +kernel
  obtain ⟨chunks, outcome, heq, hcalls, -⟩ := texts_exact hreads
  obtain ⟨chunks', outcome', heq', -, -, -, hfail, -⟩ := texts_exact hreads'
  obtain ⟨rfl, rfl⟩ := Prod.mk.inj (htexts.symm.trans heq)
  obtain ⟨rfl, rfl⟩ := Prod.mk.inj (htexts'.symm.trans heq')
  exact ⟨⟨hreads, htexts, (hcalls _ _).2 ⟨rfl, rfl⟩⟩, hreads', htexts', hfail (by simp)⟩

end Texts

end Stencil.Bytes
