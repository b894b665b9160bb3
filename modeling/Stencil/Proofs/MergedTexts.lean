import Mathlib.Data.List.Chain
import Stencil.Proofs.Nesting

/-!
# Texts in a stream

A stream joins a text to the text that it follows and leaves out the empty ones. What is written is
seen as the commands that are no texts, and the texts around them: one in front of the first, one
between each two of them, and one behind the last, each joined from the texts written there. Writing
keeps both, and a list of commands without empty texts and without neighbouring texts is the only
one of its kind that has them.

## Main definitions

* `Command.passages`: the texts around the commands that are no texts
* `Command.SameOutput`: the same commands and the same texts around them
* `Command.Merged`: no text is empty, and none stands next to another

## Main results

* `Stream.sameOutput_foldl_write`, `Stream.merged_foldl_write`: what writing keeps
* `Command.SameOutput.eq_of_merged`: merged commands are known by their output
* `Stream.ofCommands_merges`: what a stream holds of the commands written to it
-/

namespace Stencil

namespace Command

/-- The text that a command writes; other commands write none. -/
def outputText : Command → String
  | .outText text => text
  | _ => ""

theorem exists_eq_outText {command : Command} (h : command.isText = true) :
    ∃ text, command = .outText text := by
  cases command with
  | outText text => exact ⟨text, rfl⟩
  | _ => cases h

theorem withoutTexts_cons {command : Command} (h : command.isText = false) (rest : List Command) :
    withoutTexts (command :: rest) = command :: withoutTexts rest :=
  List.filter_cons_of_pos (by simp [h])

/-- The texts in front of, between and behind the commands that are no texts, each joined from the
texts that stand there. -/
def passages (commands : List Command) : List String :=
  (commands.splitOnP fun command => !command.isText).map
    fun texts => String.join (texts.map outputText)

theorem passages_nil : passages [] = [""] := rfl

/-- A text is part of the passage that begins with it. -/
theorem passages_outText_cons (text : String) (rest : List Command) :
    passages (.outText text :: rest) = (passages rest).modifyHead (text ++ ·) := by
  rw [passages, passages, List.splitOnP_cons_eq_if_modifyHead, if_neg (by simp [isText])]
  cases rest.splitOnP fun command => !command.isText with
  | nil => rfl
  | cons first later => simp [outputText, String.join_cons]

/-- Another command ends the passage in front of it. -/
theorem passages_cons {command : Command} (h : command.isText = false) (rest : List Command) :
    passages (command :: rest) = "" :: passages rest := by
  rw [passages, List.splitOnP_cons_eq_if_modifyHead, if_pos (by simp [h])]
  rfl

/-- The commands that are no texts are the same, and so are the texts around them. -/
structure SameOutput (first second : List Command) : Prop where
  others_eq : withoutTexts first = withoutTexts second
  passages_eq : passages first = passages second

namespace SameOutput

variable {first second third : List Command}

theorem refl (commands : List Command) : SameOutput commands commands := ⟨rfl, rfl⟩

theorem symm (h : SameOutput first second) : SameOutput second first :=
  ⟨h.others_eq.symm, h.passages_eq.symm⟩

theorem trans (h : SameOutput first second) (h' : SameOutput second third) :
    SameOutput first third :=
  ⟨h.others_eq.trans h'.others_eq, h.passages_eq.trans h'.passages_eq⟩

theorem cons (h : SameOutput first second) (command : Command) :
    SameOutput (command :: first) (command :: second) := by
  constructor
  · rw [← List.singleton_append, withoutTexts_append, h.others_eq, ← withoutTexts_append]
    rfl
  · cases hcommand : command.isText with
    | false => rw [passages_cons hcommand, passages_cons hcommand, h.passages_eq]
    | true =>
      obtain ⟨text, rfl⟩ := exists_eq_outText hcommand
      rw [passages_outText_cons, passages_outText_cons, h.passages_eq]

theorem append_left (h : SameOutput first second) (before : List Command) :
    SameOutput (before ++ first) (before ++ second) := by
  induction before with
  | nil => exact h
  | cons command before ih => exact ih.cons command

/-- An empty text changes nothing. -/
theorem outText_empty (rest : List Command) : SameOutput rest (.outText "" :: rest) := by
  refine ⟨rfl, ?_⟩
  rw [passages_outText_cons]
  cases passages rest with
  | nil => rfl
  | cons first later => simp

/-- Two texts are as one. -/
theorem outText_append (before text : String) (rest : List Command) :
    SameOutput (.outText (before ++ text) :: rest) (.outText before :: .outText text :: rest) := by
  refine ⟨rfl, ?_⟩
  rw [passages_outText_cons, passages_outText_cons, passages_outText_cons]
  cases passages rest with
  | nil => rfl
  | cons first later => simp [String.append_assoc]

end SameOutput

/-! ### Merged commands -/

/-- No text is empty, and none stands next to another. -/
structure Merged (commands : List Command) : Prop where
  ne_empty : ∀ text, .outText text ∈ commands → text ≠ ""
  apart : commands.IsChain fun first next => ¬ (first.isText = true ∧ next.isText = true)

namespace Merged

variable {commands others : List Command} {command : Command}

theorem nil : Merged [] := ⟨fun _ h => absurd h List.not_mem_nil, .nil⟩

theorem tail (h : Merged (command :: commands)) : Merged commands :=
  ⟨fun text htext => h.ne_empty text (List.mem_cons_of_mem _ htext),
    (List.isChain_cons.1 h.apart).2⟩

/-- The order can be turned around. -/
theorem reverse (h : Merged commands) : Merged commands.reverse where
  ne_empty text htext := h.ne_empty text (List.mem_reverse.1 htext)
  apart := by
    rw [List.isChain_reverse]
    exact h.apart.imp fun first next hapart htexts => hapart htexts.symm

/-- A command that is no text can stand in front. -/
theorem cons (h : Merged commands) (hcommand : command.isText = false) :
    Merged (command :: commands) where
  ne_empty text htext := by
    rcases List.mem_cons.1 htext with rfl | htext
    · cases hcommand
    · exact h.ne_empty text htext
  apart := List.isChain_cons.2 ⟨fun next _ htexts => by simp [hcommand] at htexts, h.apart⟩

/-- Behind a text there is no text. -/
theorem head_isText {text : String} (h : Merged (.outText text :: commands)) :
    ∀ next ∈ commands.head?, next.isText = false := by
  intro next hnext
  simpa [isText] using (List.isChain_cons.1 h.apart).1 next hnext

theorem outText_cons {text : String} (h : Merged commands) (hne : text ≠ "")
    (hnext : ∀ next ∈ commands.head?, next.isText = false) :
    Merged (.outText text :: commands) where
  ne_empty other hother := by
    rcases List.mem_cons.1 hother with heq | hother
    · obtain rfl := Command.outText.inj heq
      exact hne
    · exact h.ne_empty other hother
  apart := by
    refine List.isChain_cons.2 ⟨fun next hmem htexts => ?_, h.apart⟩
    simp [hnext next hmem] at htexts

/-- So the text is the passage that begins with it. -/
theorem passages_outText {text : String} (h : Merged (.outText text :: commands)) :
    ∃ later, passages (.outText text :: commands) = text :: later ∧
      passages commands = "" :: later := by
  have hempty : ∃ later, passages commands = "" :: later := by
    cases commands with
    | nil => exact ⟨[], passages_nil⟩
    | cons next rest => exact ⟨_, passages_cons (h.head_isText next rfl) rest⟩
  obtain ⟨later, hlater⟩ := hempty
  refine ⟨later, ?_, hlater⟩
  rw [passages_outText_cons, hlater, List.modifyHead_cons, String.append_empty]

end Merged

namespace SameOutput

variable {first second : List Command}

/-- Where one of them begins with a text, the other begins with the same text. -/
theorem exists_outText {text : String} (h : SameOutput (.outText text :: first) second)
    (hfirst : Merged (.outText text :: first)) (hsecond : Merged second) :
    ∃ rest, second = .outText text :: rest ∧ SameOutput first rest := by
  obtain ⟨later, hpassages, hlater⟩ := hfirst.passages_outText
  have hne : text ≠ "" := hfirst.ne_empty text List.mem_cons_self
  have hhead := h.passages_eq
  rw [hpassages] at hhead
  -- Were it otherwise, the text in front would be empty.
  cases second with
  | nil => exact absurd (List.cons.inj hhead).1 hne
  | cons command rest =>
    cases htext : command.isText with
    | false =>
      rw [passages_cons htext] at hhead
      exact absurd (List.cons.inj hhead).1 hne
    | true =>
      obtain ⟨other, rfl⟩ := exists_eq_outText htext
      obtain ⟨later', hpassages', hlater'⟩ := hsecond.passages_outText
      rw [hpassages'] at hhead
      obtain ⟨rfl, rfl⟩ := List.cons.inj hhead
      exact ⟨rest, rfl, h.others_eq, hlater.trans hlater'.symm⟩

/-- Where one of them begins with another command, the other begins with the same. -/
theorem exists_cons {command : Command} (hcommand : command.isText = false)
    (h : SameOutput (command :: first) second) (hfirst : Merged (command :: first))
    (hsecond : Merged second) : ∃ rest, second = command :: rest ∧ SameOutput first rest := by
  have hothers := h.others_eq
  have hpassages := h.passages_eq
  rw [withoutTexts_cons hcommand] at hothers
  rw [passages_cons hcommand] at hpassages
  cases second with
  | nil => cases hothers
  | cons other rest =>
    cases hother : other.isText with
    | true =>
      obtain ⟨text, rfl⟩ := exists_eq_outText hother
      obtain ⟨_, hrest, -⟩ := h.symm.exists_outText hsecond hfirst
      obtain ⟨rfl, -⟩ := List.cons.inj hrest
      cases hcommand
    | false =>
      rw [withoutTexts_cons hother] at hothers
      rw [passages_cons hother] at hpassages
      obtain ⟨rfl, hrest⟩ := List.cons.inj hothers
      exact ⟨rest, rfl, hrest, (List.cons.inj hpassages).2⟩

/-- From both sides: what one of them begins with, the other begins with. -/
theorem exists_of_cons {command : Command} (h : SameOutput (command :: first) second)
    (hfirst : Merged (command :: first)) (hsecond : Merged second) :
    ∃ rest, second = command :: rest ∧ SameOutput first rest := by
  cases hcommand : command.isText with
  | false => exact h.exists_cons hcommand hfirst hsecond
  | true =>
    obtain ⟨text, rfl⟩ := exists_eq_outText hcommand
    exact h.exists_outText hfirst hsecond

/-- Merged commands with the same output are the same. -/
theorem eq_of_merged (h : SameOutput first second) (hfirst : Merged first)
    (hsecond : Merged second) : first = second := by
  induction first generalizing second with
  | nil =>
    cases second with
    | nil => rfl
    | cons command rest =>
      obtain ⟨_, hrest, -⟩ := h.symm.exists_of_cons hsecond hfirst
      cases hrest
  | cons command first ih =>
    obtain ⟨rest, rfl, hrest⟩ := h.exists_of_cons hfirst hsecond
    rw [ih hrest hfirst.tail hsecond.tail]

end SameOutput

end Command

/-! ### Writing -/

namespace Stream

open Command

/-- A command that is written goes in front of what is written after it. -/
theorem sameOutput_write (stream : Stream) (command : Command) (rest : List Command) :
    SameOutput ((stream.write command).commands ++ rest) (stream.commands ++ command :: rest) := by
  cases command with
  | outText text =>
    rw [write]
    split
    · next hempty =>
      obtain rfl : text = "" := String.isEmpty_iff.1 hempty
      exact (SameOutput.outText_empty rest).append_left stream.commands
    · simp only [commands]
      unfold writeText
      split
      · next before earlier hlatest =>
        rw [hlatest]
        simpa using (SameOutput.outText_append before text rest).append_left earlier.reverse
      · simpa using SameOutput.refl (stream.latestFirst.reverse ++ .outText text :: rest)
  | _ => simpa [write, commands] using SameOutput.refl _

/-- A stream holds the output of what is written to it, by induction on what is written. -/
theorem sameOutput_foldl_write (stream : Stream) (written : List Command) :
    SameOutput (written.foldl write stream).commands (stream.commands ++ written) := by
  induction written generalizing stream with
  | nil => simpa using SameOutput.refl stream.commands
  | cons command rest ih =>
    exact (ih (stream.write command)).trans (stream.sameOutput_write command rest)

theorem sameOutput_ofCommands (written : List Command) :
    SameOutput (ofCommands written).commands written :=
  sameOutput_foldl_write empty written

/-- What is kept, last to first, stays merged with one more command. -/
theorem merged_write {stream : Stream} (h : Merged stream.latestFirst) (command : Command) :
    Merged (stream.write command).latestFirst := by
  cases command with
  | outText text =>
    rw [write]
    split
    · exact h
    · next hempty =>
      have hne : text ≠ "" := fun heq => hempty (String.isEmpty_iff.2 heq)
      simp only
      unfold writeText
      split
      · next before earlier hlatest =>
        rw [hlatest] at h
        refine h.tail.outText_cons (fun heq => hne ?_) h.head_isText
        exact (String.append_eq_empty_iff.1 heq).2
      · next hlatest =>
        refine h.outText_cons hne fun next hnext => Bool.eq_false_iff.2 fun htext => ?_
        obtain ⟨before, rfl⟩ := exists_eq_outText htext
        obtain ⟨earlier, hearlier⟩ := List.head?_eq_some_iff.1 hnext
        exact hlatest before earlier hearlier
  | _ => exact h.cons rfl

theorem merged_foldl_write {stream : Stream} (h : Merged stream.latestFirst)
    (written : List Command) : Merged (written.foldl write stream).latestFirst := by
  induction written generalizing stream with
  | nil => exact h
  | cons command rest ih => exact ih (merged_write h command)

theorem merged_ofCommands (written : List Command) : Merged (ofCommands written).commands :=
  (merged_foldl_write .nil written).reverse

theorem eq_of_commands_eq {stream other : Stream} (h : stream.commands = other.commands) :
    stream = other := by
  obtain ⟨latestFirst⟩ := stream
  exact congrArg Stream.mk (List.reverse_injective h)

/-- Streams are equal just if what was written to them has the same output. -/
theorem ofCommands_eq_iff {written other : List Command} :
    ofCommands written = ofCommands other ↔ SameOutput written other := by
  have hwritten := sameOutput_ofCommands written
  have hother := sameOutput_ofCommands other
  constructor
  · intro h
    rw [h] at hwritten
    exact hwritten.symm.trans hother
  · intro h
    have hsame := (hwritten.trans h).trans hother.symm
    exact eq_of_commands_eq (hsame.eq_of_merged (merged_ofCommands _) (merged_ofCommands _))

/-- **Nothing is lost.** Of the commands written to it a stream holds those that are no texts, in
their order, and around them the texts that were written there, joined. No text is empty and no two
stand next to each other. So streams are equal just if they were given the same commands with the
same texts around them, and a stream written to another one is reproduced. -/
theorem ofCommands_merges (written : List Command) :
    withoutTexts (ofCommands written).commands = withoutTexts written ∧
      passages (ofCommands written).commands = passages written ∧
      (∀ text, .outText text ∈ (ofCommands written).commands → text ≠ "") ∧
      (ofCommands written).commands.IsChain
        (fun first next => ¬ (first.isText = true ∧ next.isText = true)) ∧
      (∀ other, ofCommands written = ofCommands other ↔
        withoutTexts written = withoutTexts other ∧ passages written = passages other) ∧
      ofCommands (ofCommands written).commands = ofCommands written := by
  have houtput := sameOutput_ofCommands written
  have hmerged := merged_ofCommands written
  refine ⟨houtput.others_eq, houtput.passages_eq, hmerged.ne_empty, hmerged.apart, fun other => ?_,
    ofCommands_eq_iff.2 houtput⟩
  exact ofCommands_eq_iff.trans ⟨fun h => ⟨h.others_eq, h.passages_eq⟩, fun h => ⟨h.1, h.2⟩⟩

example : (ofCommands [.outText "<p>", .outText "hi", .outVariable "v", .outText "",
      .outText "</p>"]).commands = [.outText "<p>hi", .outVariable "v", .outText "</p>"] := by
  rfl

end Stream

end Stencil
