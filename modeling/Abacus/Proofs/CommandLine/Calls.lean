import Abacus.Proofs.CommandLine.Program
import Abacus.Proofs.Http.Form
import Abacus.Proofs.Wire.Records

/-!
# Calls — one line out for each call that comes in

A call is what is left of the text between two line feeds without the white space at its ends, if
anything is (`Rpc.Answered`).  Cutting the text at line feeds leaves a carriage return at the end of a
line and an empty piece after the last line feed, neither of which makes a difference
(`Rpc.callsOf_eq`).  JSON in one line holds no control character, whatever the value says
(`Json.Value.blank_le_compactChars`), so the lines that are printed are the answers, one for each call
and in the order of the calls.  The headline is `perform_calls`.
-/

namespace Abacus

/-! ## White space at the ends -/

namespace Text

/-- The text is the line without the white space at its two ends. -/
structure IsTrimmed (line text : List Char) : Prop where
  surrounded : ∃ before after, line = before ++ (text ++ after) ∧
    (∀ c ∈ before, isBlank c = true) ∧ ∀ c ∈ after, isBlank c = true
  first : ∀ c ∈ text.head?, isBlank c = false
  last : ∀ c ∈ text.getLast?, isBlank c = false

theorem exists_eq_append_dropBlanks (text : List Char) :
    ∃ before, text = before ++ dropBlanks text ∧ ∀ c ∈ before, isBlank c = true :=
  ⟨text.takeWhile isBlank, List.takeWhile_append_dropWhile.symm, fun _ => List.mem_takeWhile_imp⟩

theorem dropBlanks_append {before : List Char} (h : ∀ c ∈ before, isBlank c = true)
    (text : List Char) : dropBlanks (before ++ text) = dropBlanks text :=
  List.dropWhile_append_of_pos h

theorem dropBlanks_eq_self {text : List Char} (h : ∀ c ∈ text.head?, isBlank c = false) :
    dropBlanks text = text := by
  cases text with
  | nil => rfl
  | cons c rest => exact List.dropWhile_cons_of_neg (by rw [h c rfl]; exact Bool.false_ne_true)

theorem isBlank_of_mem_head?_dropBlanks {text : List Char} {c : Char}
    (h : c ∈ (dropBlanks text).head?) : isBlank c = false := by
  have hfirst := List.head?_dropWhile_not isBlank text
  rw [show (text.dropWhile isBlank).head? = some c from h] at hfirst
  exact hfirst

/-- **Trimming a line** leaves the one text that is the line without white space at its ends. -/
theorem isTrimmed_iff {line text : List Char} : IsTrimmed line text ↔ text = trimBlanks line := by
  constructor
  · rintro ⟨⟨before, after, rfl, hbefore, hafter⟩, hfirst, hlast⟩
    rw [trimBlanks, dropBlanks_append hbefore]
    cases text with
    | nil => rw [List.nil_append, dropBlanks_eq_nil_iff.mpr hafter]; rfl
    | cons c rest =>
        have hhead : ∀ d ∈ (c :: rest ++ after).head?, isBlank d = false := hfirst
        have hreverse : ∀ d ∈ after.reverse, isBlank d = true :=
          fun d hd => hafter d (List.mem_reverse.mp hd)
        have hend : ∀ d ∈ (c :: rest).reverse.head?, isBlank d = false := by
          rwa [List.head?_reverse]
        rw [dropBlanks_eq_self hhead, List.reverse_append, dropBlanks_append hreverse,
          dropBlanks_eq_self hend, List.reverse_reverse]
  · rintro rfl
    obtain ⟨before, hline, hbefore⟩ := exists_eq_append_dropBlanks line
    obtain ⟨after, hrest, hafter⟩ := exists_eq_append_dropBlanks (dropBlanks line).reverse
    have hkept : dropBlanks line = trimBlanks line ++ after.reverse := by
      rw [trimBlanks, ← List.reverse_append, ← hrest, List.reverse_reverse]
    refine ⟨⟨before, after.reverse, ?_, hbefore, ?_⟩, ?_, ?_⟩
    · rw [← hkept]
      exact hline
    · exact fun c hc => hafter c (List.mem_reverse.mp hc)
    · -- the first character that is left is the first one after the white space
      intro c hc
      have hfirst : c ∈ (dropBlanks line).head? := by
        rw [hkept, List.head?_append, hc]
        rfl
      exact isBlank_of_mem_head?_dropBlanks hfirst
    · intro c hc
      rw [trimBlanks, List.getLast?_reverse] at hc
      exact isBlank_of_mem_head?_dropBlanks hc

theorem isTrimmed_trimBlanks (line : List Char) : IsTrimmed line (trimBlanks line) :=
  isTrimmed_iff.mpr rfl

/-- White space behind a line is trimmed with it. -/
theorem trimBlanks_append {after : List Char} (h : ∀ c ∈ after, isBlank c = true)
    (line : List Char) : trimBlanks (line ++ after) = trimBlanks line := by
  obtain ⟨⟨before, later, hline, hbefore, hlater⟩, hfirst, hlast⟩ := isTrimmed_trimBlanks line
  refine (isTrimmed_iff.mp ⟨⟨before, later ++ after, ?_, hbefore, ?_⟩, hfirst, hlast⟩).symm
  · rw [← List.append_assoc (trimBlanks line), ← List.append_assoc before, ← hline]
  · exact List.forall_mem_append.mpr ⟨hlater, h⟩

/-- Nothing is left of a line just if it is white space. -/
theorem trimBlanks_eq_nil_iff {line : List Char} :
    trimBlanks line = [] ↔ ∀ c ∈ line, isBlank c = true := by
  constructor
  · intro h
    obtain ⟨⟨before, after, hline, hbefore, hafter⟩, -, -⟩ := isTrimmed_trimBlanks line
    rw [hline, h, List.nil_append]
    exact List.forall_mem_append.mpr ⟨hbefore, hafter⟩
  · intro h
    rw [← List.nil_append line, trimBlanks_append h]
    rfl

/-! ## Line feeds -/

/-- A text that holds no mark, and a mark after it, is one more piece. -/
theorem pieces_append_cons {mark : Char} {text : List Char} (h : mark ∉ text) (rest : List Char) :
    pieces mark (text ++ mark :: rest) = text :: pieces mark rest := by
  induction text with
  | nil => exact if_pos (beq_self_eq_true mark)
  | cons c text ih =>
      obtain ⟨hc, htext⟩ := not_or.mp (fun hmem => h (List.mem_cons.mpr hmem))
      rw [List.cons_append, pieces, if_neg (by simpa using Ne.symm hc), ih htext]
      rfl

/-- The lines that the pieces between line feeds are: a carriage return at the end of a piece belongs
to the line end, and nothing after the last line feed is no line. -/
inductive AreLines : (pieces lines : List (List Char)) → Prop where
  | nothing : AreLines [[]] []
  | last (line : List Char) : AreLines [line] [line]
  | feed (line : List Char) {pieces lines : List (List Char)} : AreLines pieces lines →
      AreLines (line :: pieces) (line :: lines)
  | carriage (line : List Char) {pieces lines : List (List Char)} : AreLines pieces lines →
      AreLines ((line ++ ['\r']) :: pieces) (line :: lines)

theorem AreLines.prepend (c : Char) {pieces lines : List (List Char)} (h : AreLines pieces lines) :
    AreLines (prepend c pieces) (prepend c lines) := by
  cases h with
  | nothing => exact .last [c]
  | last line => exact .last (c :: line)
  | feed line h => exact .feed (c :: line) h
  | carriage line h => exact .carriage (c :: line) h

/-- The lines of a text are those that its pieces between line feeds are. -/
theorem areLines_lines (text : List Char) : AreLines (pieces '\n' text) (lines text) := by
  fun_induction lines text with
  | case1 => exact .nothing
  | case2 rest ih => exact .feed [] ih
  | case3 rest ih => exact .carriage [] ih
  | case4 c rest hfeed _ ih =>
      rw [pieces, if_neg (by rwa [beq_iff_eq])]
      exact ih.prepend c

end Text

/-! ## The calls in a text -/

namespace Rpc

open Text (IsTrimmed isBlank pieces trimBlanks)

/-- The calls on some lines. -/
def callsOn (lines : List (List Char)) : List String :=
  ((lines.map trimBlanks).filter fun line => !line.isEmpty).map String.ofList

theorem callsOn_cons (line : List Char) (lines : List (List Char)) :
    callsOn (line :: lines) = callsOn [line] ++ callsOn lines := by
  rw [callsOn, List.map_cons, ← List.singleton_append, List.filter_append, List.map_append]
  rfl

/-- White space is no call. -/
theorem callsOn_of_blank {line : List Char} (h : ∀ c ∈ line, isBlank c = true) :
    callsOn [line] = [] := by
  rw [callsOn, List.map_singleton, Text.trimBlanks_eq_nil_iff.mpr h]
  rfl

/-- What is left of a line is a call. -/
theorem callsOn_of_isTrimmed {line text : List Char} (h : IsTrimmed line text) (hsome : text ≠ []) :
    callsOn [line] = [String.ofList text] := by
  rw [callsOn, List.map_singleton, ← Text.isTrimmed_iff.mp h, List.filter_cons_of_pos]
  · rfl
  · simpa using hsome

/-- A carriage return at its end makes no difference to a line. -/
theorem callsOn_append_carriage (line : List Char) : callsOn [line ++ ['\r']] = callsOn [line] := by
  have hblank : ∀ c ∈ ['\r'], isBlank c = true := fun c hc => by rw [List.mem_singleton.mp hc]; rfl
  rw [callsOn, callsOn, List.map_singleton, List.map_singleton, Text.trimBlanks_append hblank]

theorem callsOn_of_areLines {pieces lines : List (List Char)} (h : Text.AreLines pieces lines) :
    callsOn pieces = callsOn lines := by
  induction h with
  | nothing => rfl
  | last line => rfl
  | @feed line pieces lines _ ih => rw [callsOn_cons line pieces, callsOn_cons line lines, ih]
  | @carriage line pieces lines _ ih =>
      rw [callsOn_cons _ pieces, callsOn_cons line lines, callsOn_append_carriage, ih]

/-- **The calls in a text** are what is left of its pieces between line feeds. -/
theorem callsOf_eq (input : String) : callsOf input = callsOn (pieces '\n' input.toList) :=
  (callsOn_of_areLines (Text.areLines_lines input.toList)).symm

/-! ## The answers to them -/

/-- Lines that come in to a service at some time, the answers to them, and the service after them.  A
line of white space is passed over.  What is left of any other line is handled, and what that records is
written, before the next line. -/
inductive Answered (now : Int) :
    Service → (lines : List (List Char)) → (responses : List Response) → (last : Service) → Prop where
  | done (service : Service) : Answered now service [] [] service
  | blank {service last : Service} {line : List Char} {lines : List (List Char)}
      {responses : List Response} : (∀ c ∈ line, isBlank c = true) →
      Answered now service lines responses last → Answered now service (line :: lines) responses last
  | call {service last : Service} {line text : List Char} {lines : List (List Char)}
      {responses : List Response} : IsTrimmed line text → text ≠ [] →
      Answered now ((handle now (String.ofList text) service).service.flush now) lines responses last →
      Answered now service (line :: lines)
        ((handle now (String.ofList text) service).response :: responses) last

/-- There is one answer for each line that is not white space. -/
theorem Answered.length_eq {now : Int} {service last : Service} {lines : List (List Char)}
    {responses : List Response} (h : Answered now service lines responses last) :
    responses.length = lines.countP fun line => !line.all isBlank := by
  induction h with
  | done => rfl
  | blank hblank _ ih =>
      rw [ih, List.countP_cons_of_neg]
      simpa using hblank
  | call htrimmed hsome _ ih =>
      have hline : ¬ ∀ c ∈ _, isBlank c = true := fun hblank =>
        hsome ((Text.isTrimmed_iff.mp htrimmed).trans (Text.trimBlanks_eq_nil_iff.mpr hblank))
      rw [List.length_cons, ih, List.countP_cons_of_pos]
      simpa using hline

end Rpc

/-! ## One line of JSON -/

namespace Json

theorem Number.blank_le_write (n : Number) : ∀ c ∈ n.write, ' ' ≤ c := by
  intro c h
  have hnull : ∀ d ∈ "null".toList, ' ' ≤ d := by simp
  rcases n.isPart_or_mem_null h with hpart | hword
  · exact Text.blank_le_of_isPart hpart
  · exact hnull c hword

theorem Quoted.blank_le_write (text : String) : ∀ c ∈ write text, ' ' ≤ c :=
  fun _ h => (mem_write h).1

namespace Value

mutual

/-- **JSON in one line holds no control character**, whatever the value says. -/
theorem blank_le_compactChars (value : Value) : ∀ c ∈ value.compactChars, ' ' ≤ c := by
  cases value with
  | null => simp [compactChars]
  | bool b => cases b <;> simp [compactChars, boolText]
  | number n => exact n.blank_le_write
  | text s => exact Quoted.blank_le_write s
  | array items => exact List.forall_mem_cons.mpr ⟨by decide, blank_le_compactItems items⟩
  | object members => exact List.forall_mem_cons.mpr ⟨by decide, blank_le_compactMembers members⟩

/-- The items and the closing bracket hold none. -/
theorem blank_le_compactItems (items : List Value) : ∀ c ∈ compactItems items, ' ' ≤ c := by
  cases items with
  | nil => exact List.forall_mem_singleton.mpr (by decide)
  | cons item rest =>
      have hitem := blank_le_compactChars item
      cases rest with
      | nil =>
          exact List.forall_mem_append.mpr ⟨hitem, List.forall_mem_singleton.mpr (by decide)⟩
      | cons next rest =>
          have hrest := blank_le_compactItems (next :: rest)
          exact List.forall_mem_append.mpr ⟨hitem, List.forall_mem_cons.mpr ⟨by decide, hrest⟩⟩

/-- The members and the closing brace hold none. -/
theorem blank_le_compactMembers (members : List (String × Value)) :
    ∀ c ∈ compactMembers members, ' ' ≤ c := by
  cases members with
  | nil => exact List.forall_mem_singleton.mpr (by decide)
  | cons member rest =>
      obtain ⟨name, value⟩ := member
      have hmember : ∀ c ∈ Quoted.write name ++ ':' :: value.compactChars, ' ' ≤ c :=
        List.forall_mem_append.mpr ⟨Quoted.blank_le_write name,
          List.forall_mem_cons.mpr ⟨by decide, blank_le_compactChars value⟩⟩
      cases rest with
      | nil =>
          exact List.forall_mem_append.mpr ⟨hmember, List.forall_mem_singleton.mpr (by decide)⟩
      | cons next rest =>
          have hrest := blank_le_compactMembers (next :: rest)
          exact List.forall_mem_append.mpr ⟨hmember, List.forall_mem_cons.mpr ⟨by decide, hrest⟩⟩

end

end Value

end Json

/-- No answer holds a control character. -/
theorem Rpc.Response.blank_le_text (response : Response) : ∀ c ∈ response.text.toList, ' ' ≤ c := by
  rw [text, Json.Value.compact, String.toList_ofList]
  exact response.toJson.blank_le_compactChars

/-! ## A run that answers calls -/

namespace CommandLine

open Rpc (Answered Response callsOn)
open Text (pieces)

/-- No call makes the run fail. -/
theorem failure_answerCalls (now : Int) (isVerbose : Bool) (calls : List String)
    (service : Service) : (answerCalls now isVerbose calls service).1.failure = none := by
  cases calls with
  | nil => rfl
  | cons call rest => rw [answerCalls]

/-- The service after a call, what it records being written, answers the later ones. -/
theorem snd_answerCalls_cons (now : Int) (isVerbose : Bool) (call : String) (rest : List String)
    (service : Service) :
    (answerCalls now isVerbose (call :: rest) service).2 =
      (answerCalls now isVerbose rest ((Rpc.handle now call service).service.flush now)).2 := by
  rw [answerCalls]

/-- What is printed of a call is one line, and what is printed of the later ones comes after it. -/
theorem pieces_output_answerCalls_cons (now : Int) (isVerbose : Bool) (call : String)
    (rest : List String) (service : Service) :
    pieces '\n' (answerCalls now isVerbose (call :: rest) service).1.output.toList =
      (Rpc.handle now call service).response.text.toList ::
        pieces '\n' (answerCalls now isVerbose rest
          ((Rpc.handle now call service).service.flush now)).1.output.toList := by
  have hline : '\n' ∉ (Rpc.handle now call service).response.text.toList := fun hmem =>
    absurd (Response.blank_le_text _ _ hmem) (by decide)
  rw [← Text.pieces_append_cons hline, answerCalls, callReport]
  simp only [String.toList_append, List.append_assoc]
  rfl

/-- **Lines are answered** one after the other, and the answers are the lines that are printed. -/
theorem answered_answerCalls (now : Int) (isVerbose : Bool) (lines : List (List Char))
    (service : Service) :
    ∃ responses,
      Answered now service lines responses (answerCalls now isVerbose (callsOn lines) service).2 ∧
      pieces '\n' (answerCalls now isVerbose (callsOn lines) service).1.output.toList =
        responses.map (fun response => response.text.toList) ++ [[]] := by
  induction lines generalizing service with
  | nil => exact ⟨[], .done service, rfl⟩
  | cons line lines ih =>
      by_cases hblank : ∀ c ∈ line, Text.isBlank c = true
      · obtain ⟨responses, hanswered, hprinted⟩ := ih service
        rw [Rpc.callsOn_cons, Rpc.callsOn_of_blank hblank, List.nil_append]
        exact ⟨responses, .blank hblank hanswered, hprinted⟩
      · have htrimmed := Text.isTrimmed_trimBlanks line
        have hsome : Text.trimBlanks line ≠ [] := fun hnil =>
          hblank (Text.trimBlanks_eq_nil_iff.mp hnil)
        obtain ⟨responses, hanswered, hprinted⟩ := ih
          ((Rpc.handle now (String.ofList (Text.trimBlanks line)) service).service.flush now)
        rw [Rpc.callsOn_cons, Rpc.callsOn_of_isTrimmed htrimmed hsome, List.singleton_append,
          snd_answerCalls_cons, pieces_output_answerCalls_cons, hprinted]
        exact ⟨_, .call htrimmed hsome hanswered, rfl⟩

/-- **A run that answers calls** ends with zero, and has printed one line for each line that came in
with more than white space, in the same order: the answer to it, as JSON in one line without control
characters.  The history that it keeps is what the last service leaves. -/
theorem perform_calls {run : Run} {invocation : Invocation} (hrun : run.invocation = .ok invocation)
    (hcalls : invocation.action = .calls) (disk : Disk) :
    ∃ responses last,
      Answered run.now
        (.start (run.store disk invocation.database) Service.defaultCapacity)
        (pieces '\n' run.input.toList) responses last ∧
      responses.length =
        ((pieces '\n' run.input.toList).countP fun line => !line.all Text.isBlank) ∧
      pieces '\n' (run.perform disk).1.output.toList =
        responses.map (fun response => response.toJson.compact.toList) ++ [[]] ∧
      (∀ response ∈ responses, ∀ c ∈ response.toJson.compact.toList, ' ' ≤ c) ∧
      (run.perform disk).1.code = 0 ∧
      (run.perform disk).2 = disk.keepStore invocation.database (last.close run.now).store := by
  obtain ⟨responses, hanswered, hprinted⟩ := answered_answerCalls run.now
    invocation.isVerbose (pieces '\n' run.input.toList)
    (.start (run.store disk invocation.database) Service.defaultCapacity)
  rw [← Rpc.callsOf_eq] at hanswered hprinted
  have hperform : run.perform disk =
      ((invocation.run run.now run.input (run.store disk invocation.database)).1.exit,
        disk.keepStore invocation.database
          (invocation.run run.now run.input (run.store disk invocation.database)).2) := by
    rw [Run.perform, hrun]
  have haction (service : Service) :
      invocation.action.run run.now invocation.isVerbose run.input service =
        answerCalls run.now invocation.isVerbose (Rpc.callsOf run.input) service := by
    rw [hcalls]
    rfl
  refine ⟨responses, _, hanswered, hanswered.length_eq, ?_, ?_, ?_, ?_⟩
  · rw [hperform, Report.output_exit, Invocation.run, haction, Report.output_telling]
    exact hprinted
  · exact fun response _ => response.blank_le_text
  · rw [hperform, Report.code_exit_iff, Invocation.run, haction, Report.failure_telling]
    exact failure_answerCalls _ _ _ _
  · rw [hperform, Invocation.run, haction]

/-- A call whose identifier holds a line feed, a line of white space, and a last line without an
end. -/
theorem perform_calls_two :
    let run : Run := ⟨⟨some "h.db", none, none⟩, ["mcp", "stdio"],
      "\x7b\"jsonrpc\":\"2.0\",\"id\":\"a\\nb\",\"method\":\"m\"\x7d\r\n \t\n\x7boops", 0, none⟩
    let disk : Disk := fun _ => .empty
    run.invocation = .ok ⟨"h.db", false, .calls⟩ ∧
      ∃ responses last,
        Answered 0 (.start (.working .empty) Service.defaultCapacity) (pieces '\n' run.input.toList)
          responses last ∧
        responses.length = 2 ∧
        pieces '\n' (run.perform disk).1.output.toList =
          responses.map (fun response => response.toJson.compact.toList) ++ [[]] ∧
        (∀ response ∈ responses, ∀ c ∈ response.toJson.compact.toList, ' ' ≤ c) ∧
        (run.perform disk).1.code = 0 ∧
        (run.perform disk).2 = disk.keepStore "h.db" (last.close 0).store := by
  intro run disk
  have hrun : run.invocation = .ok ⟨"h.db", false, .calls⟩ := rfl
  have htwo : ((pieces '\n' run.input.toList).countP fun line => !line.all Text.isBlank) = 2 := by
    decide
  obtain ⟨responses, last, hanswered, hlength, hprinted, hline, hcode, hdisk⟩ :=
    perform_calls hrun rfl disk
  exact ⟨hrun, responses, last, hanswered, hlength.trans htwo, hprinted, hline, hcode, hdisk⟩

end CommandLine

end Abacus
