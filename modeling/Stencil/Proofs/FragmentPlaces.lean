import Stencil.Proofs.Interpolation

/-!
# Where the fragments of a text stand

A text is cut into the slices of its fragments: literal text stands there with its openings of
expressions shielded, an expression stands between its braces. An expression is located where its
slice begins, counted from where the reading of the text began, and what the walk makes of it points
there.

## Main definitions

* `Fragment.Spelled`, `Fragment.Segmented`: fragments with their slices, one after the other
* `Session.Points`: what has been written and reported in between points at given places
* `ReadsFrom`: the parts of the walk that read a text for expressions

## Main results

* `Fragment.exists_segmented`: a text is the slices of its fragments
* `Location.advance_eq_iff`: from where a text may be counted to the same place
* `ReadsFrom.exists_points`: bindings and diagnostics point at the expressions that they are made
  from
-/

namespace Stencil

variable {fragments : List Fragment}

/-! ### Locations -/

namespace Location

theorem next_eq_iff {here there : Location} {c : Char} :
    here.next c = there.next c ↔ here = there ∨ here.line = there.line ∧ c = '\n' := by
  obtain ⟨line, column⟩ := here
  obtain ⟨line', column'⟩ := there
  unfold next
  split <;> simp_all

theorem line_next_eq_iff {here there : Location} {c : Char} :
    (here.next c).line = (there.next c).line ↔ here.line = there.line := by
  unfold next
  split <;> simp

/-- Each line feed ends a line. -/
theorem line_advance (here : Location) (cs : List Char) :
    (here.advance cs).line = here.line + cs.count '\n' := by
  induction cs generalizing here with
  | nil => rfl
  | cons c cs ih =>
    rw [advance_cons, ih, next, List.count_cons]
    split
    · next hc => simp [hc, Nat.add_comm, Nat.add_left_comm]
    · next hc => simp [hc]

/-- Counting from two places over the same characters ends at one place only if it began at one, or
if it began in one line and went over the end of it. -/
theorem advance_eq_iff {here there : Location} (cs : List Char) :
    here.advance cs = there.advance cs ↔
      here = there ∨ here.line = there.line ∧ '\n' ∈ cs := by
  induction cs generalizing here there with
  | nil => simp
  | cons c cs ih =>
    rw [advance_cons, advance_cons, ih, next_eq_iff, line_next_eq_iff, List.mem_cons]
    constructor
    · rintro ((h | ⟨h, rfl⟩) | ⟨h, hmem⟩)
      · exact .inl h
      · exact .inr ⟨h, .inl rfl⟩
      · exact .inr ⟨h, .inr hmem⟩
    · rintro (h | ⟨h, rfl | hmem⟩)
      · exact .inl (.inl h)
      · exact .inl (.inr ⟨h, rfl⟩)
      · exact .inr ⟨h, hmem⟩

end Location

/-! ### Slices of fragments -/

namespace Fragment

/-- The slice of a fragment that begins at `here`. -/
def Spelled (here : Location) (slice : List Char) : Fragment → Prop
  | .text literal => slice = shieldChars literal.toList
  | .expression e place => place = here ∧ ∃ body,
    slice = "$\x7b".toList ++ body ++ "\x7d".toList ∧
      Expression.parse (here.shift 2) body = .ok e

/-- Fragments with their slices from `here` on. -/
def Segmented : Location → List (Fragment × List Char) → Prop
  | _, [] => True
  | here, (fragment, slice) :: rest =>
    fragment.Spelled here slice ∧ Segmented (here.advance slice) rest

/-- An expression is located where the slices before it end. -/
theorem Segmented.expression {here place : Location} {lead rest : List (Fragment × List Char)}
    {e : Expression} {slice : List Char}
    (h : Segmented here (lead ++ (.expression e place, slice) :: rest)) :
    place = here.advance (lead.flatMap Prod.snd) := by
  induction lead generalizing here with
  | nil => exact h.1.1
  | cons first lead ih =>
    rw [List.flatMap_cons, Location.advance_append]
    exact ih h.2

theorem getLast?_cons_of_eq {c d : Char} {cs : List Char} (h : cs.getLast? = some d) :
    (c :: cs).getLast? = some d := by
  cases cs with
  | nil => cases h
  | cons first rest => rwa [List.getLast?_cons_cons]

/-- Parts can be shielded one by one unless an opening stands across them. -/
theorem shieldChars_append {cs ds : List Char}
    (h : cs.getLast? = some '$' → ds.head? ≠ some '\x7b') :
    shieldChars (cs ++ ds) = shieldChars cs ++ shieldChars ds := by
  fun_induction shieldChars cs with
  | case1 rest ih =>
    rw [List.cons_append, List.cons_append, shieldChars, ih]
    · rfl
    · exact fun hlast => h (getLast?_cons_of_eq (getLast?_cons_of_eq hlast))
  | case2 c rest hopens ih =>
    rw [List.cons_append, shieldChars, ih]
    · rfl
    · exact fun hlast => h (getLast?_cons_of_eq hlast)
    · intro after hc hafter
      cases rest with
      | nil => exact h (congrArg some hc) (congrArg List.head? hafter)
      | cons d rest => exact hopens rest hc (by rw [(List.cons.inj hafter).1])
  | case3 => rfl

/-- Literal text, whose characters `found` holds nearest first, with its slice in front. -/
def flushParts (found : List Char) (parts : List (Fragment × List Char)) :
    List (Fragment × List Char) :=
  if found.isEmpty then parts
  else (.text (String.ofList found.reverse), shieldChars found.reverse) :: parts

theorem map_fst_flushParts (found : List Char) (parts : List (Fragment × List Char)) :
    (flushParts found parts).map Prod.fst = flush found (parts.map Prod.fst) := by
  unfold flushParts flush
  split <;> rfl

theorem flatMap_snd_flushParts (found : List Char) (parts : List (Fragment × List Char)) :
    (flushParts found parts).flatMap Prod.snd =
      shieldChars found.reverse ++ parts.flatMap Prod.snd := by
  cases found <;> rfl

theorem segmented_flushParts {found : List Char} {parts : List (Fragment × List Char)}
    {here : Location} (h : Segmented (here.advance (shieldChars found.reverse)) parts) :
    Segmented here (flushParts found parts) := by
  cases found with
  | nil => exact h
  | cons c found => exact ⟨congrArg shieldChars String.toList_ofList.symm, h⟩

/-- The text that has been read, with literal characters at its end, is the slices of its
fragments. -/
theorem exists_segmented_of_parseAfter {found input : List Char} {here place : Location}
    (h : parseAfter found place input = .ok fragments)
    (hplace : place = here.advance (shieldChars found.reverse))
    (hfound : found.head? = some '$' → input.head? ≠ some '\x7b') :
    ∃ parts, parts.map Prod.fst = fragments ∧
      parts.flatMap Prod.snd = shieldChars found.reverse ++ input ∧ Segmented here parts := by
  fun_induction parseAfter found place input generalizing here fragments with
  | case1 found place =>
    obtain rfl := Except.ok.inj h
    refine ⟨flushParts found [], map_fst_flushParts _ _, flatMap_snd_flushParts _ _, ?_⟩
    exact segmented_flushParts trivial
  | case2 found place rest ih =>
    have hshield : shieldChars ('\x7b' :: '$' :: found).reverse =
        shieldChars found.reverse ++ ['\\', '$', '\x7b'] := by
      rw [List.reverse_cons, List.reverse_cons, List.append_assoc, shieldChars_append (by simp)]
      rfl
    rw [hshield] at ih
    have hnext : place.shift 3 =
        here.advance (shieldChars found.reverse ++ ['\\', '$', '\x7b']) := by
      rw [Location.advance_append, ← hplace]
      rfl
    obtain ⟨parts, hparts, hslices, hsegmented⟩ := ih h hnext (by simp)
    exact ⟨parts, hparts, by simpa using hslices, hsegmented⟩
  | case3 => cases h
  | case4 => cases h
  | case5 => cases h
  | case6 found place rest body after hbody parsed hparsed following hfollowing ih =>
    obtain rfl := Except.ok.inj h
    obtain ⟨parts, rfl, hslices, hsegmented⟩ := ih hfollowing rfl (by simp)
    let slice := "$\x7b".toList ++ body ++ "\x7d".toList
    refine ⟨flushParts found ((.expression parsed place, slice) :: parts), ?_, ?_, ?_⟩
    · exact map_fst_flushParts _ _
    · rw [flatMap_snd_flushParts, List.flatMap_cons, hslices,
        ← append_of_expressionBody? hbody]
      simp [slice, shieldChars]
    · refine segmented_flushParts ⟨⟨hplace, body, rfl, ?_⟩, ?_⟩
      · rwa [← hplace]
      · rwa [← hplace, advance_expression]
  | case7 found place c rest hshield hopens ih =>
    have happend : shieldChars (c :: found).reverse = shieldChars found.reverse ++ [c] := by
      rw [List.reverse_cons, shieldChars_append]
      · simp [shieldChars]
      · rw [List.getLast?_reverse]
        exact hfound
    rw [happend] at ih
    have hnext : place.next c = here.advance (shieldChars found.reverse ++ [c]) := by
      rw [Location.advance_append, ← hplace]
      rfl
    have hopen : (c :: found).head? = some '$' → rest.head? ≠ some '\x7b' := by
      intro hhead hbrace
      obtain ⟨rest', rfl⟩ := List.head?_eq_some_iff.1 hbrace
      exact hopens rest' (Option.some.inj hhead) rfl
    obtain ⟨parts, hparts, hslices, hsegmented⟩ := ih h hnext hopen
    exact ⟨parts, hparts, by simpa using hslices, hsegmented⟩

/-- A text is the slices of its fragments, and its expressions stand where their slices do. -/
theorem exists_segmented {here : Location} {text : String} (h : parse here text = .ok fragments) :
    ∃ parts, parts.map Prod.fst = fragments ∧ parts.flatMap Prod.snd = text.toList ∧
      Segmented here parts :=
  exists_segmented_of_parseAfter h rfl (by simp)

end Fragment

/-! ### The places of commands and diagnostics -/

theorem Stream.filterMap_location?_write (stream : Stream) (command : Command) :
    (stream.write command).commands.filterMap Command.location? =
      stream.commands.filterMap Command.location? ++ [command].filterMap Command.location? := by
  have hpush (pushed : Command) :
      (pushed :: stream.latestFirst).reverse.filterMap Command.location? =
        stream.commands.filterMap Command.location? ++ [pushed].filterMap Command.location? := by
    rw [List.reverse_cons, List.filterMap_append]
    rfl
  cases command with
  | outText text =>
    rw [write]
    split
    · exact (List.append_nil _).symm
    · unfold writeText commands
      split
      · next hlatest =>
        rw [hlatest]
        have hnone (text : String) : [Command.outText text].filterMap Command.location? = [] := rfl
        simp only [List.reverse_cons, List.filterMap_append, hnone, List.append_nil]
      · exact hpush _
  | _ => exact hpush _

/-- Joining texts does not change where commands point. -/
theorem Stream.filterMap_location?_foldl (written : List Command) (stream : Stream) :
    (written.foldl write stream).commands.filterMap Command.location? =
      stream.commands.filterMap Command.location? ++ written.filterMap Command.location? := by
  induction written generalizing stream with
  | nil => simp
  | cons command rest ih =>
    rw [List.foldl_cons, ih, filterMap_location?_write, List.append_assoc, ← List.filterMap_append,
      List.singleton_append]

/-- Where a statement reports. -/
def Statement.place? : Statement → Option Location
  | .report _ here _ => some here
  | .check _ here => some here
  | .checkContext _ here => some here
  | .declareGlobal _ here => some here
  | .bindGlobal _ _ here => some here
  | _ => none

/-- Where the beginning of a block reports. -/
def Header.place? : Header → Option Location
  | .binding _ _ _ here => some here
  | .loop _ _ _ here => some here
  | .procedure _ _ here => some here
  | _ => none

/-- Where a script reports. -/
def Script.places : Script → List Location
  | .done => []
  | .statement first next => first.place?.toList ++ next.places
  | .block header body next => header.place?.toList ++ body.places ++ next.places

namespace Session

/-- From one session to the other, only reports at the places have been added. -/
def ReportsAt (s t : Session) (places : List Location) : Prop :=
  ∃ found, t.reports = found ++ s.reports ∧ ∀ report ∈ found, report.location ∈ places

namespace ReportsAt

variable {s t u : Session} {places more : List Location} {here : Location}

theorem of_eq (h : t.reports = s.reports) : s.ReportsAt t places :=
  ⟨[], h, List.forall_mem_nil _⟩

theorem trans (h : s.ReportsAt t places) (h' : t.ReportsAt u more) :
    s.ReportsAt u (places ++ more) := by
  obtain ⟨found, ht, hfound⟩ := h
  obtain ⟨later, hu, hlater⟩ := h'
  refine ⟨later ++ found, by rw [hu, ht, List.append_assoc], fun report hreport => ?_⟩
  rcases List.mem_append.1 hreport with hmem | hmem
  · exact List.mem_append_right _ (hlater report hmem)
  · exact List.mem_append_left _ (hfound report hmem)

theorem mono (h : s.ReportsAt t places) (hmore : places ⊆ more) : s.ReportsAt t more := by
  obtain ⟨found, ht, hfound⟩ := h
  exact ⟨found, ht, fun report hreport => hmore (hfound report hreport)⟩

theorem report (severity : Severity) (finding : Finding) :
    s.ReportsAt (s.report severity here finding) [here] :=
  ⟨[⟨severity, here, finding⟩], rfl, by simp⟩

theorem foldl {α : Type} {f : Session → α → Session} (hf : ∀ s a, ReportsAt s (f s a) [here])
    (items : List α) (s : Session) : s.ReportsAt (items.foldl f s) [here] := by
  induction items generalizing s with
  | nil => exact of_eq rfl
  | cons a rest ih => exact ((hf s a).trans (ih _)).mono (by simp)

theorem checkNames (root : Term) (s : Session) : s.ReportsAt (s.checkNames root here) [here] := by
  unfold Session.checkNames
  split
  · exact foldl (fun s name => report .warning (.unresolved name)) _ s
  · exact of_eq rfl

theorem declare (name : String) (kind : DeclarationKind) (s : Session) (here : Location) :
    s.ReportsAt (s.declare name kind here) [here] := by
  rw [Session.declare]
  split
  · exact ⟨[⟨.info, here, .hides name⟩], rfl, by simp⟩
  · exact of_eq rfl

theorem declareGlobal (name : String) (s : Session) :
    s.ReportsAt (s.declareGlobal name here) [here] := by
  rw [Session.declareGlobal]
  split
  · next previous _ => exact ⟨[⟨.info, here, .redeclares name previous⟩], rfl, by simp⟩
  · exact of_eq rfl

theorem statement (x : Statement) (s : Session) : s.ReportsAt (x.run s) x.place?.toList := by
  cases x with
  | report severity here finding => exact report severity finding
  | check root here => exact checkNames root s
  | checkContext e here =>
    rw [Statement.run]
    split
    · exact report .warning .noContext
    · exact of_eq rfl
  | declareGlobal name here => exact declareGlobal name s
  | bindGlobal name value here => exact declareGlobal name (s.write _)
  | _ => exact of_eq rfl

theorem header (header : Header) (s : Session) :
    s.ReportsAt (header.enter s) header.place?.toList := by
  cases header with
  | binding kind name value here =>
    exact declare name kind (s.write (.bindingStart name value here)) here
  | loop list item index here =>
    have hitem := declare item .loopItem (s.write (.loopStart list item index here)) here
    exact (hitem.trans (declare index .loopIndex _ here)).mono (by simp [Header.place?])
  | procedure name parameters here =>
    exact foldl (fun s parameter => declare parameter .parameter s here) parameters s
  | _ => exact of_eq rfl

/-- A script reports at its places only. -/
theorem play (k : Script) (s : Session) : s.ReportsAt (k.play s) k.places := by
  induction k generalizing s with
  | done => exact of_eq rfl
  | statement x next ih => exact (statement x s).trans (ih _)
  | block header body next hbody ih =>
    exact ((ReportsAt.header header s).trans (hbody _)).trans (ih _)

end ReportsAt

end Session

/-- Between two sessions, commands that point at the places have been written, in this order, and
all that has been reported points at one of them. -/
structure Session.Points (s t : Session) (places : List Location) : Prop where
  commands : t.commands.filterMap Command.location? =
    s.commands.filterMap Command.location? ++ places
  reports : s.ReportsAt t places

theorem Script.places_append (first second : Script) :
    (first ++ second).places = first.places ++ second.places := by
  induction first with
  | done => rfl
  | statement x next ih => simp [places, ih]
  | block header body next _ ih => simp [places, ih]

namespace Draft

variable {α β : Type}

/-- However many names were made before, a draft writes commands that point at the places, in this
order, and reports at none but them. -/
structure Points (d : Draft α) (places : List Location) : Prop where
  commands : ∀ n, (d.script n).commands.filterMap Command.location? = places
  reports : ∀ n, (d.script n).places ⊆ places

namespace Points

variable {d : Draft α} {places more : List Location}

theorem bind {f : α → Draft β} (hd : d.Points places) (hf : ∀ a, (f a).Points more) :
    (d >>= f).Points (places ++ more) := by
  constructor
  · intro n
    rw [script_bind, Script.commands_append, List.filterMap_append, hd.commands, (hf _).commands]
  · intro n
    rw [script_bind, Script.places_append]
    exact List.append_subset.2 ⟨List.subset_append_of_subset_left _ (hd.reports n),
      List.subset_append_of_subset_right _ ((hf _).reports _)⟩

theorem outText (text : String) : (Draft.say (.outText text)).Points [] :=
  ⟨fun _ => rfl, fun _ => List.nil_subset _⟩

theorem forM {γ : Type} {f : γ → Draft Unit} {g : γ → List Location} (items : List γ)
    (h : ∀ a, (f a).Points (g a)) : (items.forM f).Points (items.flatMap g) := by
  induction items with
  | nil => exact ⟨fun _ => rfl, fun _ => List.nil_subset _⟩
  | cons a rest ih =>
    simp only [List.forM_eq_forM, List.forM_cons, List.flatMap_cons] at ih ⊢
    exact (h a).bind fun _ => ih

end Points

end Draft

/-- What follows a draft that points at places points at them, and does not fail. -/
theorem Follows.exists_points {m : Emit Unit} {d : Draft Unit} {s : Session}
    {places : List Location} (h : Follows s.setup.filters m d) (hd : d.Points places)
    (hproper : s.scope.Proper) : ∃ t, m.run s = .ok () t ∧ s.Points t places := by
  refine ⟨_, h.run s rfl hproper, ?_, (Session.ReportsAt.play _ s).mono (hd.reports _)⟩
  rw [Session.commands, Script.stream_play, Stream.filterMap_location?_foldl, hd.commands]
  rfl

/-! ### Text with expressions -/

/-- Where a fragment is, if it is an expression. -/
def Fragment.place? : Fragment → Option Location
  | .text _ => none
  | .expression _ here => some here

theorem Fragment.points_draft (filters : Pipeline) (placement? : Option Placement)
    (fragment : Fragment) : (fragment.draft filters placement?).Points fragment.place?.toList := by
  cases fragment with
  | text literal => exact .outText literal
  | expression e here =>
    -- It is checked at the place where it is bound. Without a placement its context is, too.
    have htwice : [here, here] ⊆ [here] := by simp
    have hthrice : [here, here, here] ⊆ [here] := by simp
    cases placement? with
    | none => exact ⟨fun _ => rfl, fun _ => hthrice⟩
    | some placement => exact ⟨fun _ => rfl, fun _ => htwice⟩

theorem Markup.points_draftDynamicAttribute (filters : Pipeline) (name : String) (source : Written)
    (quote : String) :
    (draftDynamicAttribute filters name source quote).Points [source.location] := by
  have hsame : [source.location, source.location] ⊆ [source.location] := by simp
  exact ⟨fun _ => rfl, fun _ => hsame⟩

/-- A part of the walk that reads a text for expressions, from a place on: a text, a comment that
is not left out, or an attribute with a literal value. -/
inductive ReadsFrom (registry : Registry) : Emit Unit → String → Location → Prop where
  | text (text : String) (here : Location) :
      ReadsFrom registry ((Markup.Node.text text here).emit registry) text here
  | comment {text : String} (here : Location) (h : Markup.isAuthorComment text = false) :
      ReadsFrom registry ((Markup.Node.comment text here).emit registry) text (here.shift 4)
  | literal {attr : Markup.Attribute} {text : String} (h : attr.value = .literal text) :
      ReadsFrom registry attr.emit text attr.valueLocation

/-- Where the expressions among fragments are. -/
def Fragment.places (fragments : List Fragment) : List Location :=
  fragments.filterMap place?

theorem Fragment.points_forM (filters : Pipeline) (placement? : Option Placement)
    (fragments : List Fragment) :
    (fragments.forM (Fragment.draft filters placement?)).Points (places fragments) := by
  rw [places, List.filterMap_eq_flatMap_toList]
  exact .forM fragments (points_draft filters placement?)

theorem Markup.points_draftLiteralAttribute {filters : Pipeline} {name text quote : String}
    {here : Location} (hparse : Fragment.parse here text = .ok fragments) :
    (draftLiteralAttribute filters name text here quote).Points (Fragment.places fragments) := by
  have hparts (fragments : List Fragment) :=
    (Draft.Points.outText (" " ++ name ++ "=" ++ quote)).bind fun _ =>
      (Fragment.points_forM filters (some (.ofAttribute name)) fragments).bind fun _ =>
        .outText quote
  simp only [List.nil_append, List.append_nil] at hparts
  rw [draftLiteralAttribute, hparse]
  match fragments with
  | [.expression e place] => exact points_draftDynamicAttribute filters name ⟨e, place⟩ quote
  | [] => exact hparts []
  | .text literal :: rest => exact hparts (.text literal :: rest)
  | .expression e place :: second :: rest => exact hparts (.expression e place :: second :: rest)

/-- Bindings and diagnostics point at the expressions of the text that they are made from. -/
theorem ReadsFrom.exists_points {registry : Registry} {m : Emit Unit} {text : String}
    {here : Location} (h : ReadsFrom registry m text here)
    (hparse : Fragment.parse here text = .ok fragments) {s : Session} (hproper : s.scope.Proper) :
    ∃ t, m.run s = .ok () t ∧ s.Points t (Fragment.places fragments) := by
  have hforM := Fragment.points_forM s.setup.filters
  cases h with
  | text text here =>
    refine (follows_emitInterpolated text here none).exists_points ?_ hproper
    rw [draftInterpolated, hparse]
    exact hforM none fragments
  | comment here hshown =>
    refine (Markup.follows_emitComment text here).exists_points ?_ hproper
    have hpoints := (Draft.Points.outText "<!--").bind fun _ =>
      (hforM (some .comment) fragments).bind fun _ => .outText "-->"
    rw [List.nil_append, List.append_nil] at hpoints
    rw [Markup.draftComment, if_neg (by simp [hshown]), draftInterpolated, hparse]
    exact hpoints
  | @literal attr text hvalue =>
    refine attr.follows_emit.exists_points ?_ hproper
    rw [Markup.Attribute.draft, hvalue]
    exact Markup.points_draftLiteralAttribute hparse

end Stencil
