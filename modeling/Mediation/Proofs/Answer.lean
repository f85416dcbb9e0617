import Mediation.Command.Run
import Mediation.Proofs.Request

/-! Answers in their forms. An answer to a request is a response on one line; a run of the command
prints either a response over several lines or a position on each line. Whatever the form, the list of
positions is in it: a response is read as the positions that have been put into it, in any layout
(`Response.ofText_render`), and the lines of a text split into the positions that have been printed
(`Command.positions?_render`). So it is what has been resolved that a run prints in either form
(`Command.reads_render`). -/

namespace Mediation

open Json (Blanks Layout)
open Json.Reader

namespace Response

theorem toList_render_toJson {layout : Layout} {c : List Char}
    (hcolon : layout.colon.toList = ':' :: c) (r : Response) (k : Nat) (s : List Char) :
    (r.toJson.render layout k).toList ++ s =
      '\x7b' :: ((layout.newline (k + 1)).toList ++ ((Json.quote "breakpoints").toList ++
        ':' :: (c ++ ((layout.enclose (k + 1) "[" "]"
          (r.breakpoints.map (·.toJson.render layout (k + 2)))).toList ++
            ((layout.newline k).toList ++ '\x7d' :: s))))) := by
  have hbrackets : "\x7b".toList = ['\x7b'] ∧ "\x7d".toList = ['\x7d'] := by decide
  rw [toJson, Json.render, Json.renderEntries_eq_map, toList_enclose, hbrackets.1, hbrackets.2]
  simp only [between, Json.toList_renderEntry, hcolon, Json.render, Json.renderItems_eq_map,
    List.map_map, Function.comp_def, List.cons_append, List.flatMap_nil, List.append_nil,
    List.append_assoc, List.nil_append]

/-- A response is read as it has been written, also if blanks follow it. -/
theorem ofText_render {layout : Layout} (hlayout : layout.Spaced) (r : Response) (w : String)
    (hw : Blanks w.toList) :
    ofText (r.toJson.render layout 0 ++ w) = .ok r := by
  obtain ⟨c, hcolon, hc⟩ := hlayout.colon
  have hopen (p : Position) : ∃ t, (p.toJson.render layout 2).toList = '\x7b' :: t := by
    have h := p.toList_render_toJson hcolon 2 []
    rw [List.append_nil] at h
    exact ⟨_, h⟩
  have hread (p : Position) (s : List Char) :
      Position.textShape.reader 125 ((p.toJson.render layout 2).toList ++ s) = .done p s :=
    Position.reader_render hlayout 124 p 2 Json.blanks_nil s
  have hitems (s : List Char) := arrayOf_enclose hlayout hopen hread 1 hc r.breakpoints s
  refine run_eq_ok.mpr ⟨w.toList, ?_, List.dropWhile_eq_nil_iff.mpr hw⟩
  rw [String.toList_append, toList_render_toJson hcolon]
  refine Json.Shape.reader_of_runs rfl (Json.Shape.runs_field
    (moreEntries_quote_true (hlayout.newline _) "breakpoints" _) rfl (map_of_done (hitems _) _) ?_
    (Json.Shape.runs_close (hlayout.newline 0) _ _)) rfl
  simp only [List.length_append]
  omega

end Response

/-! Lines of text. -/

namespace Command

/-- Digits without a sign are read as what they stand for, if that has 32 bits. -/
theorem number?_of_digits {s : String} {n : Nat} (hne : s.toList ≠ [])
    (hdigits : ∀ c ∈ s.toList, c.isDigit = true) (hvalue : Nat.ofDigitChars 10 s.toList 0 = n)
    (hlt : n < UInt32.size) :
    number? s = some (UInt32.ofNat n) := by
  have hall : s.toList.any (!·.isDigit) = false := by
    rw [List.any_eq_false]
    intro c hc
    simp [hdigits c hc]
  have hempty : s.toList.isEmpty = false := List.isEmpty_eq_false_iff.mpr hne
  have hfold : s.toList.foldl (fun n c => 10 * n + (c.toNat - 48)) 0 = n := hvalue
  rw [number?]
  -- a digit is no sign, so nothing is taken off in front
  split
  next negative digits heq =>
      have hunsigned : (false, s.toList) = (negative, digits) := by
        rw [← heq]
        split
        next rest h => exact absurd (hdigits '-' (h ▸ List.mem_cons_self)) (by decide)
        next rest h => exact absurd (hdigits '+' (h ▸ List.mem_cons_self)) (by decide)
        next => rfl
      obtain ⟨rfl, rfl⟩ := Prod.mk.inj hunsigned
      rw [hall, hempty, if_neg (by decide), hfold]
      exact if_pos ⟨hlt, fun h => nomatch h⟩

theorem toList_toString (n : UInt32) : (toString n).toList = Nat.toDigits 10 n.toNat :=
  Nat.toList_repr

theorem isDigit_of_mem_toString {n : UInt32} {c : Char} (hc : c ∈ (toString n).toList) :
    c.isDigit = true := by
  rw [toList_toString] at hc
  exact isDigit_of_mem_toDigits hc

/-- A number is printed as the command reads it. -/
theorem number?_toString (n : UInt32) : number? (toString n) = some n := by
  have hvalue : Nat.ofDigitChars 10 (toString n).toList 0 = n.toNat := by
    rw [toList_toString]
    exact Nat.ofDigitChars_ten_toDigits
  have hne : (toString n).toList ≠ [] := by
    rw [toList_toString]
    exact Nat.toDigits_ne_nil
  rw [number?_of_digits hne (fun _ hc => isDigit_of_mem_toString hc) hvalue n.toNat_lt,
    UInt32.ofNat_toNat]

end Command

namespace Position

/-- The position that is printed on a line. -/
def ofLine? (line : List Char) : Option Position :=
  match line.splitOn ':' with
  | [line, column] => do
    return ⟨← Command.number? (String.ofList line), ← Command.number? (String.ofList column)⟩
  | _ => none

theorem toList_toString (p : Position) :
    (toString p).toList = (toString p.line).toList ++ ':' :: (toString p.column).toList := by
  show (toString p.line ++ ":" ++ toString p.column).toList = _
  rw [String.toList_append, String.toList_append, List.append_assoc]
  rfl

theorem newline_not_mem_toString (p : Position) :
    ∀ c ∈ (toString p).toList, (c == '\n') = false := by
  intro c hc
  rw [toList_toString, List.mem_append, List.mem_cons] at hc
  rw [beq_eq_false_iff_ne]
  rintro rfl
  rcases hc with hc | hc | hc
  · exact absurd (Command.isDigit_of_mem_toString hc) (by decide)
  · exact absurd hc (by decide)
  · exact absurd (Command.isDigit_of_mem_toString hc) (by decide)

theorem splitOn_toString (p : Position) :
    (toString p).toList.splitOn ':' = [(toString p.line).toList, (toString p.column).toList] := by
  have hcolon (n : UInt32) : ∀ c ∈ (toString n).toList, (c == ':') = false := by
    intro c hc
    rw [beq_eq_false_iff_ne]
    rintro rfl
    exact absurd (Command.isDigit_of_mem_toString hc) (by decide)
  rw [toList_toString, List.splitOn_eq_splitOnP,
    List.splitOnP_append_cons_of_forall_mem (hcolon p.line) ':' rfl,
    List.splitOnP_eq_singleton (hcolon p.column)]

/-- A position is read from the line it is printed on. -/
theorem ofLine?_toString (p : Position) : ofLine? (toString p).toList = some p := by
  rw [ofLine?, splitOn_toString]
  simp only [String.ofList_toList, Command.number?_toString]
  rfl

end Position

namespace Command

/-- The positions that a text lists, each on a line that is ended by a newline. -/
def positions? (text : String) : Option (List Position) :=
  let lines := text.toList.splitOn '\n'
  if lines.getLast? = some [] then lines.dropLast.mapM Position.ofLine? else none

theorem splitOn_render (breakpoints : List Position) :
    (render breakpoints .text).toList.splitOn '\n' =
      breakpoints.map (fun p => (toString p).toList) ++ [[]] := by
  have hlines : (render breakpoints .text).toList =
      breakpoints.flatMap fun p => (toString p).toList ++ ['\n'] := by
    rw [render, String.toList_join, List.flatMap_map]
    simp
  rw [hlines, List.splitOn_eq_splitOnP]
  clear hlines
  induction breakpoints with
  | nil => rfl
  | cons p rest ih =>
      rw [List.flatMap_cons, List.append_assoc, List.singleton_append,
        List.splitOnP_append_cons_of_forall_mem p.newline_not_mem_toString '\n' rfl, ih]
      rfl

/-- A text is read as the positions that have been printed. -/
theorem positions?_render (breakpoints : List Position) :
    positions? (render breakpoints .text) = some breakpoints := by
  have hlines : (breakpoints.map fun p => (toString p).toList).mapM Position.ofLine? =
      some breakpoints := by
    induction breakpoints with
    | nil => rfl
    | cons p rest ih =>
        rw [List.map_cons, List.mapM_cons, p.ofLine?_toString, ih]
        rfl
  rw [positions?, splitOn_render, List.getLast?_concat, if_pos rfl, List.dropLast_concat, hlines]

example : render [⟨11, 12⟩, ⟨5, 12⟩] .text = "11:12\n5:12\n" := by decide

example : positions? "11:12\n5:12" = none := by decide

/-- What a run resolves before anything is printed. -/
def resolve (files : Files) (configHome : String) (args : Arguments) :
    Except Failure (List Position) := do
  let settings ← settings files configHome args.config
  let source ← readFile files args.input
  stepOverIn settings source ⟨args.line, args.column⟩

theorem run_eq (files : Files) (configHome : String) (args : Arguments) :
    run files configHome args = (resolve files configHome args).map (render · args.format) := by
  rw [run, resolve]
  cases settings files configHome args.config with
  | error failure => rfl
  | ok settings =>
      cases readFile files args.input with
      | error failure => rfl
      | ok source => rfl

theorem ofText_render (breakpoints : List Position) :
    Response.ofText (render breakpoints .json) = .ok ⟨breakpoints⟩ := by
  have hnewline : Blanks "\n".toList := by
    intro c hc
    rw [List.mem_singleton.mp hc]
    rfl
  exact Response.ofText_render Json.Layout.spaced_pretty ⟨breakpoints⟩ "\n" hnewline

/-- What is printed and what is answered is read as the positions that have been resolved, in order:
whatever the positions are, whatever a run and a request come to, and in every form. -/
theorem reads_render :
    (∀ breakpoints : List Position,
      Response.ofText (Response.mk breakpoints).toJson.compact = .ok ⟨breakpoints⟩ ∧
      Response.ofText (render breakpoints .json) = .ok ⟨breakpoints⟩ ∧
      positions? (render breakpoints .text) = some breakpoints) ∧
    (∀ files configHome args,
      (run files configHome { args with format := .json }).map Response.ofText =
        (resolve files configHome args).map (.ok ⟨·⟩) ∧
      (run files configHome { args with format := .text }).map positions? =
        (resolve files configHome args).map some) ∧
    ∀ settings text,
      (answerText settings text).map Response.ofText =
        match Request.ofText text with
        | .error e => .error (.request e)
        | .ok request =>
            (stepOverIn settings request.source request.breakpoint).map (.ok ⟨·⟩) := by
  have hcompact (r : Response) : Response.ofText r.toJson.compact = .ok r := by
    have h := Response.ofText_render Json.Layout.spaced_compact r "" Json.blanks_nil
    rwa [String.append_empty] at h
  refine ⟨fun breakpoints => ⟨hcompact ⟨breakpoints⟩, ofText_render breakpoints,
    positions?_render breakpoints⟩, ?_, ?_⟩
  · intro files configHome args
    have hformat (format : OutputFormat) :
        run files configHome { args with format } =
          (resolve files configHome args).map (render · format) := run_eq ..
    rw [hformat, hformat]
    cases resolve files configHome args with
    | error failure => exact ⟨rfl, rfl⟩
    | ok breakpoints =>
        exact ⟨congrArg Except.ok (ofText_render breakpoints),
          congrArg Except.ok (positions?_render breakpoints)⟩
  · intro settings text
    rw [answerText]
    cases Request.ofText text with
    | error e => rfl
    | ok request =>
        show Except.map _ (do return (← request.answer settings).toJson.compact) =
          (stepOverIn settings request.source request.breakpoint).map _
        rw [Request.answer]
        cases stepOverIn settings request.source request.breakpoint with
        | error failure => rfl
        | ok breakpoints => exact congrArg Except.ok (hcompact ⟨breakpoints⟩)

end Command

end Mediation
