import Stencil.Proofs.Nesting

/-!
# Lines of listings

A listing is extended line by line, so what is listed of the first commands stays as it is. The
depth of a listing is the number of open blocks; as long as no end is out of place, a command that
ends a block has a block to leave. The text of a listing falls apart into its lines again, if these
are lines.

## Main definitions

* `Command.around`: the commands whose blocks are open around a command
* `Listing.line`: the line of the next command

## Main results

* `Command.exists_around`: the blocks that are open before a command
* `Listing.lines_ofCommands_take`: the first commands have the first lines
* `Listing.depth_ofCommands`: the depth is the number of open blocks
* `Listing.line_ofCommands`: the line of a command behind others
* `Listing.splitOn_text`: the lines of the text
-/

namespace Stencil

/-- What a command does to the open blocks: the one that it ends was the innermost, and the one that
it begins is now; around these nothing changes. -/
theorem Command.exists_around_of_blockStep {opened after : List Block} {command : Command}
    (h : blockStep opened command = some after) :
    ∃ around, opened = command.closes?.toList ++ around ∧
      after = command.opens?.toList ++ around := by
  cases hopens : command.opens? with
  | some block =>
    have hcloses : command.closes? = none := by
      cases hcloses : command.closes? with
      | none => rfl
      | some ended =>
        rw [opens?_eq_none_of_closes? hcloses] at hopens
        cases hopens
    rw [blockStep_of_opens hopens] at h
    rw [hcloses]
    exact ⟨opened, rfl, (Option.some.inj h).symm⟩
  | none =>
    cases hcloses : command.closes? with
    | none =>
      rw [blockStep_of_plain hopens hcloses] at h
      exact ⟨opened, rfl, (Option.some.inj h).symm⟩
    | some block =>
      -- What ends is the innermost block, and those around it stay.
      cases opened with
      | nil => simp [blockStep, hopens, hcloses] at h
      | cons inner outer =>
        simp only [blockStep, hopens, hcloses, Option.ite_none_right_eq_some] at h
        obtain ⟨rfl, hafter⟩ := h
        exact ⟨outer, rfl, (Option.some.inj hafter).symm⟩

/-- Before each command of a list in which no end is out of place, its own block is the innermost if
the command ends one. -/
theorem Command.exists_around {commands : List Command} {last : List Block}
    (h : blocksAfter [] commands = some last) {i : Nat} {command : Command}
    (hi : commands[i]? = some command) :
    ∃ around, blocksAfter [] (commands.take i) = some (command.closes?.toList ++ around) := by
  obtain ⟨hlength, hget⟩ := List.getElem?_eq_some_iff.1 hi
  have hsplit : commands.take i ++ command :: commands.drop (i + 1) = commands := by
    rw [← hget, ← List.drop_eq_getElem_cons hlength, List.take_append_drop]
  rw [← hsplit, blocksAfter_append] at h
  obtain ⟨opened, hopened, hrest⟩ := Option.bind_eq_some_iff.1 h
  rw [blocksAfter_cons] at hrest
  obtain ⟨after, hstep, -⟩ := Option.bind_eq_some_iff.1 hrest
  obtain ⟨around, rfl, -⟩ := exists_around_of_blockStep hstep
  exact ⟨around, hopened⟩

namespace Command

variable {blocks after : List Block} {command : Command} {commands stack : List Command}

/-- The commands whose blocks are open around a command that stands behind others: one that ends a
block stands outside of it. -/
def around (before : List Command) (command : Command) : List Command :=
  if command.closes?.isSome then (opened before).tail else opened before

theorem length_track (h : stack.length = blocks.length)
    (hstep : blockStep blocks command = some after) :
    (track stack command).length = after.length := by
  obtain ⟨around, rfl, rfl⟩ := exists_around_of_blockStep hstep
  cases hcloses : command.closes? with
  | some block => simp [track, opens?_eq_none_of_closes? hcloses, hcloses, h]
  | none => cases hopens : command.opens? <;> simp [track, hcloses, hopens, h]

/-- Where no end is out of place, there are as many commands whose blocks are open as blocks. -/
theorem length_foldl_track (h : stack.length = blocks.length)
    (hafter : blocksAfter blocks commands = some after) :
    (commands.foldl track stack).length = after.length := by
  induction commands generalizing stack blocks with
  | nil =>
    obtain rfl := Option.some.inj hafter
    exact h
  | cons command rest ih =>
    rw [blocksAfter_cons] at hafter
    obtain ⟨next, hnext, hrest⟩ := Option.bind_eq_some_iff.1 hafter
    exact ih (length_track h hnext) hrest

theorem length_around {before : List Command} {outside : List Block}
    (h : blocksAfter [] before = some (command.closes?.toList ++ outside)) :
    (command.around before).length = outside.length := by
  have hlength : (opened before).length = _ := length_foldl_track rfl h
  unfold around
  cases hcloses : command.closes? <;> simp [hlength, hcloses]

end Command

namespace Listing

variable {listing : Listing} {command : Command} {commands : List Command}

/-! ### Line by line -/

/-- The line of the next command. -/
def line (listing : Listing) (command : Command) : String :=
  "".pushn ' ' (2 * if command.closes?.isSome then listing.depth - 1 else listing.depth) ++
    command.render

theorem lines_add (listing : Listing) (command : Command) :
    (listing.add command).lines = listing.lines ++ [listing.line command] :=
  List.reverse_cons

theorem ofCommands_append (first second : List Command) :
    ofCommands (first ++ second) = second.foldl add (ofCommands first) :=
  List.foldl_append

/-- One line is added for each command, behind the lines that are there. -/
theorem exists_lines_foldl_add (listing : Listing) (commands : List Command) :
    ∃ more, (commands.foldl add listing).lines = listing.lines ++ more ∧
      more.length = commands.length := by
  induction commands generalizing listing with
  | nil => exact ⟨[], (List.append_nil _).symm, rfl⟩
  | cons command rest ih =>
    obtain ⟨more, hlines, hlength⟩ := ih (listing.add command)
    refine ⟨listing.line command :: more, ?_, congrArg (· + 1) hlength⟩
    rw [List.foldl_cons, hlines, lines_add, List.append_assoc, List.singleton_append]

theorem length_lines_ofCommands (commands : List Command) :
    (ofCommands commands).lines.length = commands.length := by
  obtain ⟨more, hlines, hlength⟩ := exists_lines_foldl_add empty commands
  rw [← hlength]
  exact congrArg List.length hlines

theorem lines_ofCommands_take (commands : List Command) (i : Nat) :
    (ofCommands (commands.take i)).lines = (ofCommands commands).lines.take i := by
  rcases Nat.le_total commands.length i with hle | hle
  · rw [List.take_of_length_le hle,
      List.take_of_length_le (Nat.le_trans (Nat.le_of_eq (length_lines_ofCommands commands)) hle)]
  · obtain ⟨more, hlines, -⟩ :=
      exists_lines_foldl_add (ofCommands (commands.take i)) (commands.drop i)
    rw [← ofCommands_append, List.take_append_drop] at hlines
    rw [hlines, List.take_left']
    rw [length_lines_ofCommands, List.length_take_of_le hle]

/-- The line of a command is made when those before it are listed. -/
theorem getElem?_lines_ofCommands {i : Nat} (h : commands[i]? = some command) :
    (ofCommands commands).lines[i]? = some ((ofCommands (commands.take i)).line command) := by
  have hlength : i < commands.length := (List.getElem?_eq_some_iff.1 h).1
  have htake : commands.take (i + 1) = commands.take i ++ [command] := by
    rw [List.take_add_one, h]
    rfl
  have hbefore : (ofCommands (commands.take i)).lines.length = i := by
    rw [length_lines_ofCommands, List.length_take_of_le (Nat.le_of_lt hlength)]
  rw [← List.getElem?_take_of_lt (Nat.lt_succ_self i), ← lines_ofCommands_take, htake,
    ofCommands_append, List.foldl_cons, List.foldl_nil, lines_add]
  rw [List.getElem?_append_right (Nat.le_of_eq hbefore), hbefore, Nat.sub_self]
  rfl

/-! ### Depth -/

theorem depth_add {stack : List Command} (h : listing.depth = stack.length) :
    (listing.add command).depth = (Command.track stack command).length := by
  cases hcloses : command.closes? with
  | some block => simp [add, Command.track, Command.opens?_eq_none_of_closes? hcloses, hcloses, h]
  | none => cases hopens : command.opens? <;> simp [add, Command.track, hcloses, hopens, h]

/-- The depth is the number of open blocks, by induction on the commands. -/
theorem depth_foldl_add {stack : List Command} (h : listing.depth = stack.length)
    (commands : List Command) :
    (commands.foldl add listing).depth = (commands.foldl Command.track stack).length := by
  induction commands generalizing listing stack with
  | nil => exact h
  | cons command rest ih => exact ih (depth_add h)

theorem depth_ofCommands (commands : List Command) :
    (ofCommands commands).depth = (Command.opened commands).length :=
  depth_foldl_add rfl commands

/-- The line of a command is indented by the blocks around it. -/
theorem line_ofCommands (before : List Command) (command : Command) :
    (ofCommands before).line command =
      "".pushn ' ' (2 * (command.around before).length) ++ command.render := by
  rw [line, depth_ofCommands, Command.around]
  split <;> simp

/-! ### Text -/

theorem toList_pushn (s : String) (c : Char) (n : Nat) :
    (s.pushn c n).toList = s.toList ++ List.replicate n c := by
  induction n with
  | zero => exact (List.append_nil _).symm
  | succ n ih =>
    change ((s.pushn c n).push c).toList = _
    rw [String.toList_push, ih, List.append_assoc, ← List.replicate_succ']

theorem toList_text (listing : Listing) :
    listing.text.toList = listing.lines.flatMap fun line => line.toList ++ ['\n'] := by
  have hfold (lines : List String) (written : String) :
      (lines.foldl (fun written line => written ++ line ++ "\n") written).toList =
        written.toList ++ lines.flatMap fun line => line.toList ++ ['\n'] := by
    induction lines generalizing written with
    | nil => exact (List.append_nil _).symm
    | cons line rest ih => simp [ih]
  exact hfold listing.lines ""

/-- If no line holds a line feed, the text falls apart into the lines, with nothing behind the last
line feed. -/
theorem splitOn_text (h : ∀ line ∈ listing.lines, '\n' ∉ line.toList) :
    listing.text.toList.splitOn '\n' = listing.lines.map String.toList ++ [[]] := by
  rw [toList_text, List.splitOn]
  generalize listing.lines = lines at h ⊢
  induction lines with
  | nil => rfl
  | cons line rest ih =>
    obtain ⟨hline, hrest⟩ := List.forall_mem_cons.1 h
    have hwhole : line.toList.splitOnP (· == '\n') = [line.toList] :=
      List.splitOnP_eq_singleton fun c hc => beq_false_of_ne fun heq => hline (heq ▸ hc)
    have hcut (later : List Char) : (line.toList ++ '\n' :: later).splitOnP (· == '\n') =
        line.toList.splitOnP (· == '\n') ++ later.splitOnP (· == '\n') :=
      List.splitOnP_append_cons _ _ (beq_self_eq_true '\n')
    rw [List.flatMap_cons, List.append_assoc, List.singleton_append, hcut, hwhole, ih hrest]
    rfl

end Listing

end Stencil
