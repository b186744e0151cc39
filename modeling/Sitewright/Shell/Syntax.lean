import Sitewright.Text.Integer
/-!
# The language of commands

A script is made of words and operators. Words hold characters, quoted or not, variables, and scripts
whose output is put in their place. This file reads a script into tokens and tokens into commands:
lists, pipelines, conditions, loops, groups, and simple commands with assignments and redirections.
-/
set_option autoImplicit false

namespace Sitewright.Shell

/-! ## Words and tokens -/

/-- How the value of a variable is used. -/
inductive Use where
  | plain
  | length
  /-- Another text instead, where the variable is not set; with `whenEmpty` also where it is empty. -/
  | otherwise (whenEmpty : Bool)
  /-- As before, and the variable is set to that text. -/
  | assign (whenEmpty : Bool)
  /-- Another text where the variable is set. -/
  | alternative (whenEmpty : Bool)
  /-- Without what matches a pattern at the front. -/
  | withoutFront (longest : Bool)
  /-- Without what matches a pattern at the back. -/
  | withoutBack (longest : Bool)
  /-- An error, where the variable is not set; with `whenEmpty` also where it is empty. -/
  | required (whenEmpty : Bool)
deriving DecidableEq, Repr

/-- A part of a word. -/
inductive Part where
  | char (c : Char) (quoted : Bool)
  /-- Quotes with nothing between them; they make a word even where it is empty. -/
  | quotes
  | variable (name : Text) (use : Use) (argument : Text) (quoted : Bool)
  | output (script : Text) (quoted : Bool)
  /-- The value of a calculation. -/
  | calculation (terms : Text) (quoted : Bool)
  /-- A variable whose use is not of the form of one. -/
  | badUse
deriving DecidableEq, Repr

abbrev Word := List Part

/-- A token of a script. -/
inductive Token where
  | word (w : Word)
  | operator (o : Text)
  | redirect (number : Option Nat) (o : Text)
  | lineEnd
deriving DecidableEq, Repr

/-- Why a script cannot be read. -/
inductive SyntaxError where
  | openQuote
  | openBackquote
  | openBrace
  | openCalculation
  | badLoopVariable
  /-- A token that has no place; perhaps it is known which one would have. -/
  | unexpected (token : Text) (expected : Option Text)
deriving DecidableEq, Repr

def SyntaxError.unexpectedEnd (expected : Option Text) : SyntaxError :=
  .unexpected "end of file".toList expected

def SyntaxError.message : SyntaxError → Text
  | .openQuote => "Syntax error: Unterminated quoted string".toList
  | .openBackquote => "Syntax error: EOF in backquote substitution".toList
  | .openBrace => "Syntax error: Missing '\x7d'".toList
  | .openCalculation => "Syntax error: Missing '))'".toList
  | .badLoopVariable => "Syntax error: Bad for loop variable".toList
  | .unexpected token expected => "Syntax error: ".toList ++ token ++ " unexpected".toList ++
      match expected with
      | some e => " (expecting ".toList ++ e ++ [')']
      | none => []

/-! ## Reading words -/

def isNameChar (c : Char) : Bool := c.isAlphanum || c = '_'

def endsWord (c : Char) : Bool := List.elem c " \t\n;&|<>()".toList

/-- The text up to the bracket that closes an open one, and what follows that bracket; `depth` counts
the further open ones, `quote` is the open quote, and `out` holds what has been read, in reverse. Where
no bracket closes the open one, tells whether a quote is open. -/
def closing (openChar closeChar : Char) (depth : Nat) (quote : Option Char) (out : Text) :
    Text → Except Bool (Text × Text)
  | [] => .error quote.isSome
  | '\\' :: c :: s => closing openChar closeChar depth quote (c :: '\\' :: out) s
  | c :: s =>
    match quote with
    | some q => closing openChar closeChar depth (if c = q then none else quote) (c :: out) s
    | none =>
      if c = '\'' || c = '"' then closing openChar closeChar depth (some c) (c :: out) s
      else if c = openChar then closing openChar closeChar (depth + 1) none (c :: out) s
      else if c = closeChar then
        match depth with
        | 0 => .ok (out.reverse, s)
        | d + 1 => closing openChar closeChar d none (c :: out) s
      else closing openChar closeChar depth none (c :: out) s

/-- The use that follows a name between braces, and its argument. -/
def useOf : Text → Option (Use × Text)
  | [] => some (.plain, [])
  | ':' :: '-' :: s => some (.otherwise true, s)
  | '-' :: s => some (.otherwise false, s)
  | ':' :: '=' :: s => some (.assign true, s)
  | '=' :: s => some (.assign false, s)
  | ':' :: '?' :: s => some (.required true, s)
  | '?' :: s => some (.required false, s)
  | ':' :: '+' :: s => some (.alternative true, s)
  | '+' :: s => some (.alternative false, s)
  | '#' :: '#' :: s => some (.withoutFront true, s)
  | '#' :: s => some (.withoutFront false, s)
  | '%' :: '%' :: s => some (.withoutBack true, s)
  | '%' :: s => some (.withoutBack false, s)
  | _ => none

/-- The name at the front of a text: letters, digits and bars, or one special character. -/
def nameOf (s : Text) : Text :=
  match s with
  | c :: _ =>
    if c.isDigit || List.elem c "?#@*!$-".toList then [c] else s.takeWhile isNameChar
  | [] => []

def bracedVariable (quoted : Bool) (body : Text) : Part :=
  match body with
  | '#' :: c :: rest =>
    let name := c :: rest
    if name.all isNameChar then .variable name .length [] quoted else .badUse
  | _ =>
    let name := nameOf body
    if name.isEmpty then .badUse
    else match useOf (body.drop name.length) with
      | some u => .variable name u.1 u.2 quoted
      | none => .badUse

/-- The part that begins with a dollar sign, from what follows that sign, and the rest. -/
def dollarPart (quoted : Bool) (s : Text) : Except SyntaxError (Part × Text) :=
  match s with
  | '\x7b' :: rest =>
    match closing '\x7b' '\x7d' 0 none [] rest with
    | .ok (body, rest) => .ok (bracedVariable quoted body, rest)
    | .error inQuotes => .error (if inQuotes then .openQuote else .openBrace)
  | '(' :: '(' :: rest =>
    match closing '(' ')' 0 none [] rest with
    | .ok (terms, ')' :: rest) => .ok (.calculation terms quoted, rest)
    | _ => .error .openCalculation
  | '(' :: rest =>
    match closing '(' ')' 0 none [] rest with
    | .ok (body, rest) => .ok (.output body quoted, rest)
    | .error inQuotes => .error (if inQuotes then .openQuote else .unexpectedEnd (some "\")\"".toList))
  | _ =>
    let name := nameOf s
    if name.isEmpty then .ok (.char '$' quoted, s)
    else .ok (.variable name .plain [] quoted, s.drop name.length)

/-- The script between backquotes, from what follows the first one, and the rest. -/
def backquoted (out : Text) : Text → Option (Text × Text)
  | [] => none
  | '\\' :: c :: s =>
    if List.elem c "`\\$".toList then backquoted (c :: out) s else backquoted (c :: '\\' :: out) s
  | '`' :: s => some (out.reverse, s)
  | c :: s => backquoted (c :: out) s

/-- Reads a word; `inQuotes` says that double quotes are open, and `out` holds the parts so far, in
reverse. -/
def readWord : Nat → Bool → Word → Text → Except SyntaxError (Word × Text)
  | 0, _, _, _ => .error (.unexpectedEnd none)
  | _ + 1, inQuotes, out, [] => if inQuotes then .error .openQuote else .ok (out.reverse, [])
  | fuel + 1, inQuotes, out, c :: s =>
    if c = '$' then
      match dollarPart inQuotes s with
      | .ok (part, rest) => readWord fuel inQuotes (part :: out) rest
      | .error e => .error e
    else if c = '`' then
      match backquoted [] s with
      | some (script, rest) => readWord fuel inQuotes (.output script inQuotes :: out) rest
      | none => .error .openBackquote
    else if c = '"' then readWord fuel (!inQuotes) (.quotes :: out) s
    else if c = '\\' then
      match s with
      | [] => .ok ((.char '\\' true :: out).reverse, [])
      | d :: rest =>
        if d = '\n' then readWord fuel inQuotes out rest
        else if inQuotes && !List.elem d "$`\"\\".toList then
          readWord fuel inQuotes (.char d true :: .char '\\' true :: out) rest
        else readWord fuel inQuotes (.char d true :: out) rest
    else if inQuotes then readWord fuel inQuotes (.char c true :: out) s
    else if c = '\'' then
      let body := s.takeWhile (· ≠ '\'')
      match s.drop body.length with
      | _ :: rest =>
        readWord fuel inQuotes ((body.map fun d => .char d true).reverse ++ .quotes :: out) rest
      | [] => .error .openQuote
    else if endsWord c then .ok (out.reverse, c :: s)
    else readWord fuel inQuotes (.char c false :: out) s

/-! ## Reading tokens -/

/-- The operators, longer ones before their fronts. -/
def operators : List Text :=
  ["&&".toList, "||".toList, ";;".toList, ";".toList, "&".toList, "|".toList, "(".toList,
    ")".toList]

/-- The operators of redirections, longer ones before their fronts. -/
def redirectOperators : List Text :=
  [">>".toList, ">&".toList, "<&".toList, ">|".toList, ">".toList, "<".toList]

/-- The first of some texts that a text begins with, and what follows it. -/
def firstFront (fronts : List Text) (s : Text) : Option (Text × Text) :=
  fronts.findSome? fun front => (Text.after? front s).map fun rest => (front, rest)

/-- A redirection at the front of a text, perhaps with a number before it. -/
def redirectAt? (s : Text) : Option (Token × Text) :=
  let digits := s.takeWhile Char.isDigit
  (firstFront redirectOperators (s.drop digits.length)).map fun found =>
    (.redirect (if digits.isEmpty then none
      else some (digits.foldl (fun n c => 10 * n + (c.toNat - 48)) 0)) found.1, found.2)

def tokensFrom : Nat → List Token → Text → Except SyntaxError (List Token)
  | 0, out, _ => .ok out.reverse
  | _ + 1, out, [] => .ok out.reverse
  | fuel + 1, out, c :: s =>
    if c = ' ' || c = '\t' then tokensFrom fuel out s
    else if c = '\n' then tokensFrom fuel (.lineEnd :: out) s
    else if c = '#' then tokensFrom fuel out (s.dropWhile (· ≠ '\n'))
    else match redirectAt? (c :: s) with
      | some (token, rest) => tokensFrom fuel (token :: out) rest
      | none =>
        match firstFront operators (c :: s) with
        | some (o, rest) => tokensFrom fuel (.operator o :: out) rest
        | none =>
          match readWord (2 * s.length + 4) false [] (c :: s) with
          | .error e => .error e
          | .ok (w, rest) =>
            if w.isEmpty then tokensFrom fuel out rest
            else tokensFrom fuel (.word w :: out) rest

def tokens (s : Text) : Except SyntaxError (List Token) := tokensFrom (s.length + 1) [] s

/-- The text of a word without quotes, variables and outputs. -/
def plainText? (w : Word) : Option Text :=
  w.mapM fun
    | .char c false => some c
    | _ => none

def reserved : List Text :=
  ["if".toList, "then".toList, "else".toList, "elif".toList, "fi".toList, "while".toList,
    "until".toList, "for".toList, "do".toList, "done".toList, "case".toList, "esac".toList,
    "in".toList, "\x7b".toList, "\x7d".toList, "!".toList]

def inDoubleQuotes (s : Text) : Text := '"' :: s ++ ['"']

def Token.shown : Token → Text
  | .word w =>
    match plainText? w with
    | some t => if List.elem t reserved then inDoubleQuotes t else "word".toList
    | none => "word".toList
  | .operator o => inDoubleQuotes o
  | .redirect _ _ => "redirection".toList
  | .lineEnd => "newline".toList

/-! ## Commands -/

/-- A redirection: the channel, the operator, and the word behind it. -/
structure Redirect where
  channel : Nat
  operator : Text
  target : Word
deriving DecidableEq, Repr

/-- A command. -/
inductive Command where
  | simple (assignments : List (Text × Word)) (words : List Word) (redirects : List Redirect)
  | pipeline (stages : List Command)
  | negated (c : Command)
  | both (a b : Command)
  | either (a b : Command)
  | sequence (cs : List Command)
  | subshell (c : Command)
  | condition (test yes no : Command)
  | loop (untilTrue : Bool) (test body : Command)
  | forEach (name : Text) (words : List Word) (body : Command)
  /-- The first command with a pattern that a word matches. -/
  | choice (w : Word) (cases : List (List Word × Command))
  | redirected (c : Command) (redirects : List Redirect)
deriving Repr, Inhabited

/-- The word of a language of commands that stands at the front. -/
def keyword? : List Token → Option (Text × List Token)
  | .word w :: rest => (plainText? w).map fun t => (t, rest)
  | .operator o :: rest => if o = [')'] || o = ";;".toList then some (o, rest) else none
  | _ => none

def listEnds : List Text :=
  ["then".toList, "do".toList, "done".toList, "fi".toList, "else".toList, "elif".toList,
    "\x7d".toList, ")".toList, "esac".toList, ";;".toList]

def atListEnd (ts : List Token) : Bool :=
  match ts with
  | [] => true
  | _ =>
    match keyword? ts with
    | some (k, _) => List.elem k listEnds
    | none => false

def unexpectedAt {α : Type} (expected : Option Text) : List Token → Except SyntaxError α
  | [] => .error (.unexpectedEnd expected)
  | t :: _ => .error (.unexpected t.shown expected)

def expect (k : Text) (ts : List Token) : Except SyntaxError (List Token) :=
  match keyword? ts with
  | some (found, rest) => if found = k then .ok rest else unexpectedAt (some (inDoubleQuotes k)) ts
  | none => unexpectedAt (some (inDoubleQuotes k)) ts

def skipLines (ts : List Token) : List Token :=
  ts.dropWhile fun t => decide (t = .lineEnd)

def channelOf (number : Option Nat) (o : Text) : Nat :=
  number.getD (if o.head? = some '<' then 0 else 1)

/-- An assignment that a word stands for: a name and the word behind the equals sign. -/
def assignment? (w : Word) : Option (Text × Word) :=
  let name := w.takeWhile fun
    | .char c false => isNameChar c
    | _ => false
  match plainText? name, w.drop name.length with
  | some (c :: cs), .char '=' false :: value =>
    if c.isDigit then none else some (c :: cs, value)
  | _, _ => none

def readRedirects (out : List Redirect) : List Token → Except SyntaxError (List Redirect × List Token)
  | .redirect number o :: .word w :: rest => readRedirects (⟨channelOf number o, o, w⟩ :: out) rest
  | .redirect _ _ :: rest => unexpectedAt none rest
  | ts => .ok (out.reverse, ts)

/-- Reads a simple command; what has been read is held in reverse. -/
def readSimple (assignments : List (Text × Word)) (words : List Word) (redirects : List Redirect) :
    List Token → Except SyntaxError (Command × List Token)
  | .word w :: rest =>
    match words, assignment? w with
    | [], some a => readSimple (a :: assignments) [] redirects rest
    | _, _ => readSimple assignments (w :: words) redirects rest
  | .redirect number o :: .word w :: rest =>
    readSimple assignments words (⟨channelOf number o, o, w⟩ :: redirects) rest
  | .redirect _ _ :: rest => unexpectedAt none rest
  | ts =>
    if assignments.isEmpty && words.isEmpty && redirects.isEmpty then unexpectedAt none ts
    else if ts.head? = some (.operator ['(']) && assignments.isEmpty && words.length = 1 &&
        redirects.isEmpty then
      (expect [')'] ts.tail).bind (unexpectedAt none)
    else .ok (.simple assignments.reverse words.reverse redirects.reverse, ts)

/-- The words of a loop, up to the end of their line. -/
def readWords (out : List Word) : List Token → List Word × List Token
  | .word w :: rest => readWords (w :: out) rest
  | ts => (out.reverse, ts)

def skipSeparators (ts : List Token) : List Token :=
  skipLines (if ts.head? = some (.operator [';']) then ts.tail else ts)

/-- The words that a loop goes through and what follows the word that begins its body. Words that are
named end with their line or at a semicolon. -/
def readLoopWords (ts : List Token) : Except SyntaxError (List Word × List Token) := do
  match keyword? (skipLines ts) with
  | some (k, more) =>
    if k = "in".toList then
      let (words, rest) := readWords [] more
      if rest.head? = some (.operator [';']) || rest.head? = some .lineEnd then
        return (words, ← expect "do".toList (skipSeparators rest))
      else unexpectedAt none rest
    else return ([], ← expect "do".toList (skipSeparators ts))
  | none => return ([], ← expect "do".toList (skipSeparators ts))

def isName (s : Text) : Bool :=
  match s with
  | c :: _ => !c.isDigit && s.all isNameChar
  | [] => false

/-- The patterns of a case, with bars between them, and what follows their bracket. -/
def readPatterns (out : List Word) : List Token → Except SyntaxError (List Word × List Token)
  | .word w :: .operator o :: rest =>
    if o = ['|'] then readPatterns (w :: out) rest
    else if o = [')'] then .ok ((w :: out).reverse, rest)
    else unexpectedAt (some "\")\"".toList) (.operator o :: rest)
  | .word _ :: rest => unexpectedAt (some "\")\"".toList) rest
  | [] => .error (.unexpectedEnd (some "\")\"".toList))
  | rest => unexpectedAt (some "word".toList) rest

mutual

def readList : Nat → List Command → List Token → Except SyntaxError (Command × List Token)
  | 0, _, _ => .error (.unexpectedEnd none)
  | fuel + 1, out, ts =>
    let ts := skipLines ts
    if atListEnd ts then .ok (.sequence out.reverse, ts)
    else
      match readAndOr fuel ts with
      | .error e => .error e
      | .ok (c, rest) =>
        match rest with
        | .operator o :: more =>
          if o = [';'] || o = ['&'] then readList fuel (c :: out) more
          else if o = [')'] || o = ";;".toList then .ok (.sequence (c :: out).reverse, rest)
          else unexpectedAt none rest
        | .lineEnd :: more => readList fuel (c :: out) more
        | [] => .ok (.sequence (c :: out).reverse, [])
        | _ => unexpectedAt none rest

/-- Reads pipelines joined by the operators of conditions. -/
def readAndOr : Nat → List Token → Except SyntaxError (Command × List Token)
  | 0, _ => .error (.unexpectedEnd none)
  | fuel + 1, ts =>
    match readPipeline fuel ts with
    | .error e => .error e
    | .ok (c, rest) => readAndOrFrom fuel c rest

def readAndOrFrom : Nat → Command → List Token → Except SyntaxError (Command × List Token)
  | 0, _, _ => .error (.unexpectedEnd none)
  | fuel + 1, c, ts =>
    match ts with
    | .operator o :: rest =>
      if o = "&&".toList || o = "||".toList then
        match readPipeline fuel (skipLines rest) with
        | .error e => .error e
        | .ok (d, more) =>
          readAndOrFrom fuel (if o = "&&".toList then .both c d else .either c d) more
      else .ok (c, ts)
    | _ => .ok (c, ts)

/-- Reads commands joined by pipes, perhaps behind a negation. -/
def readPipeline : Nat → List Token → Except SyntaxError (Command × List Token)
  | 0, _ => .error (.unexpectedEnd none)
  | fuel + 1, ts =>
    match keyword? ts with
    | some (['!'], rest) =>
      match readPipeline fuel rest with
      | .error e => .error e
      | .ok (c, rest) => .ok (.negated c, rest)
    | _ => readStages fuel [] ts

def readStages : Nat → List Command → List Token → Except SyntaxError (Command × List Token)
  | 0, _, _ => .error (.unexpectedEnd none)
  | fuel + 1, out, ts =>
    match readCommand fuel ts with
    | .error e => .error e
    | .ok (c, rest) =>
      match rest with
      | .operator ['|'] :: more => readStages fuel (c :: out) (skipLines more)
      | _ => .ok ((if out.isEmpty then c else .pipeline (c :: out).reverse), rest)

def readCommand : Nat → List Token → Except SyntaxError (Command × List Token)
  | 0, _ => .error (.unexpectedEnd none)
  | fuel + 1, ts =>
    match ts with
    | .operator o :: rest =>
      if o = ['('] then
        match readList fuel [] rest with
        | .error e => .error e
        | .ok (c, rest) => do
          let rest ← expect [')'] rest
          let (redirects, rest) ← readRedirects [] rest
          return (.redirected (.subshell c) redirects, rest)
      else unexpectedAt none ts
    | _ =>
      match keyword? ts with
      | none => readSimple [] [] [] ts
      | some (k, rest) =>
        if k = "\x7b".toList then
          match readList fuel [] rest with
          | .error e => .error e
          | .ok (c, rest) => do
            let rest ← expect "\x7d".toList rest
            let (redirects, rest) ← readRedirects [] rest
            return (.redirected c redirects, rest)
        else if k = "if".toList then readCondition fuel rest
        else if k = "while".toList || k = "until".toList then
          match readList fuel [] rest with
          | .error e => .error e
          | .ok (test, rest) =>
            match expect "do".toList rest with
            | .error e => .error e
            | .ok rest =>
              match readList fuel [] rest with
              | .error e => .error e
              | .ok (body, rest) => do
                let rest ← expect "done".toList rest
                let (redirects, rest) ← readRedirects [] rest
                return (.redirected (.loop (k = "until".toList) test body) redirects, rest)
        else if k = "for".toList then
          match rest with
          | .word w :: rest =>
            match (plainText? w).filter isName with
            | none => .error .badLoopVariable
            | some name =>
              match readLoopWords rest with
              | .error e => .error e
              | .ok (words, rest) =>
                match readList fuel [] rest with
                | .error e => .error e
                | .ok (body, rest) => do
                  let rest ← expect "done".toList rest
                  let (redirects, rest) ← readRedirects [] rest
                  return (.redirected (.forEach name words body) redirects, rest)
          | _ => .error .badLoopVariable
        else if k = "case".toList then
          match rest with
          | .word w :: rest =>
            match expect "in".toList (skipLines rest) with
            | .error e => .error e
            | .ok rest =>
              match readCases fuel [] rest with
              | .error e => .error e
              | .ok (cases, rest) => do
                let (redirects, rest) ← readRedirects [] rest
                return (.redirected (.choice w cases) redirects, rest)
          | _ => unexpectedAt (some "word".toList) rest
        else if k ∈ listEnds then unexpectedAt none ts
        else readSimple [] [] [] ts

/-- Reads the cases of a choice, and its end. -/
def readCases : Nat → List (List Word × Command) → List Token →
    Except SyntaxError (List (List Word × Command) × List Token)
  | 0, _, _ => .error (.unexpectedEnd none)
  | fuel + 1, out, ts =>
    let ts := skipLines ts
    match expect "esac".toList ts with
    | .ok rest => .ok (out.reverse, rest)
    | .error _ =>
      let ts := if ts.head? = some (.operator ['(']) then ts.tail else ts
      match readPatterns [] ts with
      | .error e => .error e
      | .ok (patterns, rest) =>
        match readList fuel [] rest with
        | .error e => .error e
        | .ok (body, .operator o :: rest) =>
          if o = ";;".toList then readCases fuel ((patterns, body) :: out) rest
          else unexpectedAt (some "\";;\"".toList) (.operator o :: rest)
        | .ok (body, rest) =>
          match expect "esac".toList rest with
          | .ok rest => .ok (((patterns, body) :: out).reverse, rest)
          | .error _ => unexpectedAt (some "\";;\"".toList) rest

def readCondition : Nat → List Token → Except SyntaxError (Command × List Token)
  | 0, _ => .error (.unexpectedEnd none)
  | fuel + 1, ts =>
    match readList fuel [] ts with
    | .error e => .error e
    | .ok (test, rest) =>
      match expect "then".toList rest with
      | .error e => .error e
      | .ok rest =>
        match readList fuel [] rest with
        | .error e => .error e
        | .ok (yes, rest) =>
          match keyword? rest with
          | some (k, more) =>
            if k = "elif".toList then
              match readCondition fuel more with
              | .error e => .error e
              | .ok (no, rest) => .ok (.condition test yes no, rest)
            else if k = "else".toList then
              match readList fuel [] more with
              | .error e => .error e
              | .ok (no, rest) => do
                let rest ← expect "fi".toList rest
                let (redirects, rest) ← readRedirects [] rest
                return (.redirected (.condition test yes no) redirects, rest)
            else do
              let rest ← expect "fi".toList rest
              let (redirects, rest) ← readRedirects [] rest
              return (.redirected (.condition test yes (.sequence [])) redirects, rest)
          | none => unexpectedAt (some "\"fi\"".toList) rest

end

def parse (script : Text) : Except SyntaxError Command := do
  let ts ← tokens script
  let (c, rest) ← readList (20 * ts.length + 20) [] ts
  match rest with
  | [] => return c
  | _ => unexpectedAt none rest

end Sitewright.Shell
