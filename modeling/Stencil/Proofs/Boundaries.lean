import Stencil.Markup.Template
import Stencil.Proofs.Utf8

/-!
# Reading does not depend on where reads end

A template is read with a buffer, and each read fills as much of it as the source of the bytes
gives. A character that the end of a read cuts is held back, and the scanner and the builder keep
their state from one text to the next. So the outcome is the one of the whole text, and bytes that
encode no text are refused however they are read.

## Main definitions

* `Bytes.Reads`: the ways to read bytes with a buffer
* `Scanner.events`: the events of a text, up to its end
* `Template.ofText`: reading a text at once

## Main results

* `Bytes.exists_textsAfter`, `Bytes.eq_of_textsAfter`: the texts of reads make up the text that
  the bytes encode
* `Scanner.feed_append`, `Template.Reader.take_append`: taking a text in two parts
* `Template.outcome_of_reads`: the outcome of reading bytes
-/

namespace Stencil

namespace Bytes

/-! ### The texts of reads -/

/-- Reads that give bytes with a buffer of a size: no read is empty, and a size of zero counts as
one. -/
structure Reads (size : Nat) (bytes : List UInt8) (reads : List (List UInt8)) : Prop where
  flatten : reads.flatten = bytes
  ne_nil : ∀ read ∈ reads, read ≠ []
  length_le : ∀ read ∈ reads, read.length ≤ max size 1

/-- A source that fills the buffer in every read. -/
theorem reads_pieces (size : Nat) (bytes : List UInt8) : Reads size bytes (pieces size bytes) := by
  fun_induction pieces size bytes with
  | case1 => exact ⟨rfl, nofun, nofun⟩
  | case2 b rest ih =>
    constructor
    · rw [List.flatten_cons, ih.flatten, List.cons_append, List.take_append_drop]
    · exact List.forall_mem_cons.2 ⟨List.cons_ne_nil b _, ih.ne_nil⟩
    · refine List.forall_mem_cons.2 ⟨?_, ih.length_le⟩
      rw [List.length_cons, List.length_take]
      omega

theorem isValidUTF8_iff {bytes : List UInt8} :
    bytes.toByteArray.IsValidUTF8 ↔ ∃ text, encode text = bytes := by
  constructor
  · rintro ⟨text, htext⟩
    refine ⟨text, ?_⟩
    have hdata := congrArg ByteArray.data htext
    rw [List.utf8Encode, List.data_toByteArray, List.data_toByteArray] at hdata
    exact (congrArg Array.toList hdata).symm
  · rintro ⟨text, rfl⟩
    exact ⟨text, rfl⟩

theorem flatten_keep (text : List Char) (texts : List (List Char)) :
    (if text.isEmpty then texts else text :: texts).flatten = text ++ texts.flatten := by
  cases text <;> rfl

/-- Reads without a fault give the text that the bytes encode. -/
theorem eq_of_textsAfter {held : List UInt8} {reads : List (List UInt8)} {texts : List (List Char)}
    (h : textsAfter held reads = (texts, .ok ())) :
    held ++ reads.flatten = encode texts.flatten := by
  induction reads generalizing held texts with
  | nil =>
    rw [textsAfter] at h
    obtain ⟨rfl, houtcome⟩ := Prod.mk.inj h
    split at houtcome
    case isTrue hheld => rw [List.isEmpty_iff.1 hheld]; rfl
    case isFalse => cases houtcome
  | cons read reads ih =>
    rw [textsAfter] at h
    split at h
    · cases h
    · rename_i text left hdecode
      obtain ⟨rfl, houtcome⟩ := Prod.mk.inj h
      rw [flatten_keep, encode_append, ← ih (Prod.ext rfl houtcome), List.flatten_cons,
        ← List.append_assoc, eq_of_decodeFrom hdecode, List.append_assoc]

/-- The texts of reads of an encoded text make up the text: no read ends with a fault, and at the
end no bytes are held back. -/
theorem exists_textsAfter {held : List UInt8} {reads : List (List UInt8)} {text : List Char}
    (hcut : Cut held) (h : held ++ reads.flatten = encode text) :
    ∃ texts, textsAfter held reads = (texts, .ok ()) ∧ texts.flatten = text := by
  induction reads generalizing held text with
  | nil =>
    rw [List.flatten_nil, List.append_nil] at h
    obtain rfl := hcut.eq_nil h
    exact ⟨[], by rw [textsAfter, h]; rfl, rfl⟩
  | cons read reads ih =>
    rw [List.flatten_cons, ← List.append_assoc] at h
    -- The read goes as far as it holds whole characters, and the rest begins with what it cuts.
    obtain ⟨first, second, left, hdecode, rfl, hleft⟩ := exists_decodeFrom 0 h
    obtain ⟨texts, htexts, rfl⟩ := ih (cut_of_decodeFrom hdecode) hleft
    refine ⟨if first.isEmpty then texts else first :: texts, ?_, flatten_keep first texts⟩
    rw [textsAfter, decode, hdecode]
    simp only [htexts]

end Bytes

namespace Markup

/-! ### Taking a text in parts -/

/-- Characters that follow others are taken unless the others end in a fault. -/
theorem Scanner.feed_append (s : Scanner) (first second : List Char) :
    s.feed (first ++ second) =
      match s.feed first with
      | (events, .error e) => (events, .error e)
      | (events, .ok next) => (events ++ (next.feed second).1, (next.feed second).2) := by
  induction first generalizing s with
  | nil => rfl
  | cons c first ih =>
    rw [List.cons_append, feed, feed]
    cases s.step c with
    | error e => rfl
    | ok taken =>
      obtain ⟨next, events⟩ := taken
      simp only [ih next]
      rcases next.feed first with ⟨more, result⟩
      cases result with
      | error e => rfl
      | ok last => simp only [List.append_assoc]

/-- The events of a text, up to its end. -/
def Scanner.events (text : List Char) : Except MarkupError (List Event) :=
  match start.feed text with
  | (_, .error e) => .error e
  | (events, .ok s) =>
    match s.finish with
    | .error e => .error e
    | .ok last => .ok (events ++ last)

theorem Scanner.events_eq_ok_iff {text : List Char} {found : List Event} :
    events text = .ok found ↔
      ∃ first s last, start.feed text = (first, .ok s) ∧ s.finish = .ok last ∧
        found = first ++ last := by
  unfold events
  rcases start.feed text with ⟨first, result⟩
  constructor
  · intro h
    cases result with
    | error e => cases h
    | ok s =>
      dsimp only at h
      cases hfinish : s.finish with
      | error e =>
        rw [hfinish] at h
        cases h
      | ok last =>
        rw [hfinish] at h
        exact ⟨first, s, last, rfl, hfinish, (Except.ok.inj h).symm⟩
  · rintro ⟨first', s, last, heq, hfinish, rfl⟩
    obtain ⟨rfl, rfl⟩ := Prod.mk.inj heq
    dsimp only
    rw [hfinish]

theorem Builder.takeAll_append (b : Builder) (first second : List Event) :
    b.takeAll (first ++ second) = b.takeAll first >>= fun next => next.takeAll second :=
  List.foldlM_append

namespace Template

/-- Reads a template from a text at once. -/
def ofText (text : List Char) : Except Failure Template := do
  let reader ← Reader.take ⟨.start, .start⟩ text
  reader.finish

/-- A fault in the first part comes before all that the second part gives. -/
theorem Reader.take_append (r : Reader) (first second : List Char) :
    r.take (first ++ second) = r.take first >>= fun next => next.take second := by
  simp only [take, Scanner.feed_append]
  rcases r.scanner.feed first with ⟨events, result⟩
  cases result with
  | error e =>
    -- The second part is not looked at; the builder may still find a fault before this one.
    simp only
    cases r.builder.takeAll events <;> rfl
  | ok scanner =>
    simp only [Builder.takeAll_append]
    cases r.builder.takeAll events <;> rfl

theorem Reader.foldlM_take (r : Reader) (texts : List (List Char)) :
    texts.foldlM take r = r.take texts.flatten := by
  induction texts generalizing r with
  | nil => rfl
  | cons text texts ih =>
    rw [List.foldlM_cons, List.flatten_cons, take_append]
    exact congrArg _ (funext ih)

variable {bytes : List UInt8} {reads : List (List UInt8)}

theorem ofPieces_of_encode {text : List Char} (h : reads.flatten = Bytes.encode text) :
    ofPieces reads = ofText text := by
  obtain ⟨texts, htexts, rfl⟩ := Bytes.exists_textsAfter Bytes.cut_nil h
  rw [ofPieces, Bytes.texts, htexts]
  simp only [Reader.foldlM_take]
  rfl

/-- A text is read alike with all buffers. -/
theorem parse_encode (size : Nat) (text : List Char) :
    parse size (Bytes.encode text) = ofText text :=
  ofPieces_of_encode (Bytes.reads_pieces size _).flatten

theorem ofPieces_of_not_encode (h : ¬ ∃ text, Bytes.encode text = reads.flatten) :
    ∃ failure, ofPieces reads = .error failure := by
  rw [ofPieces, Bytes.texts]
  -- Had all reads been decoded, their texts would encode the bytes.
  rcases htexts : Bytes.textsAfter [] reads with ⟨texts, outcome⟩
  cases outcome with
  | ok _ => exact absurd ⟨texts.flatten, (Bytes.eq_of_textsAfter htexts).symm⟩ h
  | error e =>
    cases hreader : texts.foldlM Reader.take ⟨.start, .start⟩ with
    | error failure => exact ⟨failure, by simp only [hreader]; rfl⟩
    | ok reader => exact ⟨.encoding e, by simp only [hreader]; rfl⟩

/-- The outcome of reading bytes that encode a text is the one of the text, with the same tree or
the same failure for all buffers and all ways in which the source splits its reads. Bytes that
encode none are refused by all of them. -/
theorem outcome_of_reads (bytes : List UInt8) :
    (∀ size, Bytes.Reads size bytes (Bytes.pieces size bytes)) ∧
      (bytes.toByteArray.IsValidUTF8 →
        (∀ size size' reads reads', Bytes.Reads size bytes reads → Bytes.Reads size' bytes reads' →
          ofPieces reads = ofPieces reads') ∧
        ∃ text, Bytes.encode text = bytes ∧ ∀ size, parse size bytes = ofText text) ∧
      (¬ bytes.toByteArray.IsValidUTF8 →
        ∀ size reads, Bytes.Reads size bytes reads →
          ∃ failure, ofPieces reads = .error failure) := by
  refine ⟨fun size => Bytes.reads_pieces size bytes, ?_, ?_⟩
  · intro hvalid
    obtain ⟨text, htext⟩ := Bytes.isValidUTF8_iff.1 hvalid
    have houtcome : ∀ size reads, Bytes.Reads size bytes reads → ofPieces reads = ofText text :=
      fun size reads hreads => ofPieces_of_encode (hreads.flatten.trans htext.symm)
    refine ⟨fun size size' reads reads' hreads hreads' => ?_, text, htext, fun size => ?_⟩
    · rw [houtcome size reads hreads, houtcome size' reads' hreads']
    · exact houtcome size _ (Bytes.reads_pieces size bytes)
  · intro hvalid size reads hreads
    rw [Bytes.isValidUTF8_iff, ← hreads.flatten] at hvalid
    exact ofPieces_of_not_encode hvalid

/-- A tag and a character of two bytes, which the reads cut. -/
def accentSource : List UInt8 := [0x3C, 0x62, 0x72, 0x3E, 0xC3, 0xA9]

theorem outcome_of_reads_accent :
    (accentSource.toByteArray.IsValidUTF8 ∧ (parse 2 accentSource).isOk = true ∧
      Bytes.Reads 5 accentSource [[0x3C, 0x62, 0x72], [0x3E, 0xC3], [0xA9]] ∧
      ofPieces [[0x3C, 0x62, 0x72], [0x3E, 0xC3], [0xA9]] = parse 2 accentSource) ∧
    (¬ (accentSource.take 5).toByteArray.IsValidUTF8 ∧
      ∃ failure, parse 0 (accentSource.take 5) = .error failure) := by
  have hvalid : accentSource.toByteArray.IsValidUTF8 := by decide +kernel
  have hinvalid : ¬ (accentSource.take 5).toByteArray.IsValidUTF8 := by decide +kernel
  have hreads : Bytes.Reads 5 accentSource [[0x3C, 0x62, 0x72], [0x3E, 0xC3], [0xA9]] :=
    ⟨rfl, by decide, by decide⟩
  obtain ⟨hpieces, houtcome, -⟩ := outcome_of_reads accentSource
  obtain ⟨hpieces', -, hrefused⟩ := outcome_of_reads (accentSource.take 5)
  exact ⟨⟨hvalid, by decide +kernel, hreads,
    (houtcome hvalid).1 5 2 _ _ hreads (hpieces 2)⟩, hinvalid, hrefused hinvalid 0 _ (hpieces' 0)⟩

end Template

end Markup

end Stencil
