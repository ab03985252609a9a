import FeatureLattice.Text.Quoted

/-!
# Reading command lines

A command line holds switches, which start with a hyphen, and plain words for the slots of a
grammar. A long switch may be cut short as long as only one switch starts so, and its value may
follow in the next word or after an equals sign; short switches without values may be packed into
one word. Slots are filled in order from the words between switches, each as far as the slots after
it allow. The separator `--` ends the switches. Words that fit nowhere are left over.
-/
namespace FeatureLattice.CommandLine

/-- Why reading a command line ends early. -/
inductive Stop where
  /-- A switch asks for this text. -/
  | shown (text : String)
  /-- The command line is wrong, as this text explains. -/
  | refused (text : String)

/-- What a switch does. -/
inductive Effect (σ : Type) where
  | display (text : String)
  | flag (update : σ → σ)
  | valued (update : String → Except String (σ → σ))

/-- A switch with all its names. -/
structure Switch (σ : Type) where
  names : List String
  effect : Effect σ

/-- How many words a slot takes; a command takes all that follow. -/
inductive Arity where
  | one
  | any
  | some
  | command
  deriving DecidableEq

/-- A place for plain words. -/
structure Slot (σ : Type) where
  label : String
  arity : Arity
  fill : List String → Except Stop (σ → σ)

/-- What a program takes on its command line. -/
structure Grammar (σ : Type) where
  program : String
  usage : String
  switches : List (Switch σ)
  slots : List (Slot σ)

/-- A word of a command line. -/
inductive Token (σ : Type) where
  | plain (word : String)
  | separator
  /-- A switch under one of its names, with the text attached to it in the same word. -/
  | switch (word : String) (s : Switch σ) (name : String) (attached : Option String)
  | unknown (word : String)

/-- What matters of a word to the filling of slots. -/
inductive TokenKind where
  | plain
  | separator
  | switch
  deriving DecidableEq

variable {σ : Type}

namespace Token

def word : Token σ → String
  | plain word => word
  | separator => "--"
  | switch word _ _ _ => word
  | unknown word => word

def kind : Token σ → TokenKind
  | plain _ => .plain
  | separator => .separator
  | switch _ _ _ _ => .switch
  | unknown _ => .switch

def isSwitch (t : Token σ) : Bool := t.kind = .switch

end Token

/-- How a switch is named in messages. -/
def Switch.label (s : Switch σ) : String := "/".intercalate s.names

/-- Cut a word at its first equals sign. -/
def cutAtEquals (cs : List Char) : List Char × Option (List Char) :=
  match cs.dropWhile (· ≠ '=') with
  | [] => (cs, none)
  | _ :: rest => (cs.takeWhile (· ≠ '='), some rest)

/-- Whether a word after its hyphen is a number: digits, or a point with digits after it. One line
feed may follow. -/
def isUnsignedNumber (cs : List Char) : Bool :=
  let isDigit c := (Text.decimalDigit? c).isSome
  let ends (rest : List Char) := rest.isEmpty || rest = ['\n']
  match cs.dropWhile isDigit with
  | '.' :: rest => !(rest.takeWhile isDigit).isEmpty && ends (rest.dropWhile isDigit)
  | rest => !(cs.takeWhile isDigit).isEmpty && ends rest

namespace Grammar

/-- The message that refuses a command line. -/
def refuse (g : Grammar σ) (message : String) : Stop :=
  .refused (g.usage ++ g.program ++ ": error: " ++ message ++ "\n")

/-- All names of switches, in order. -/
def switchNames (g : Grammar σ) : List (String × Switch σ) :=
  g.switches.flatMap fun s => s.names.map fun name => (name, s)

def find? (g : Grammar σ) (name : String) : Option (Switch σ) := g.switchNames.lookup name

/-- The switches that a word may stand for: a long name cut short, or a short name with text
attached to it. -/
def candidates (g : Grammar σ) (cs : List Char) : List (Switch σ × String × Option String) :=
  match cs with
  | '-' :: '-' :: _ =>
    let (stem, attached) := cutAtEquals cs
    g.switchNames.filterMap fun (name, s) =>
      if stem.isPrefixOf name.toList then some (s, name, attached.map String.ofList) else none
  | _ =>
    g.switchNames.filterMap fun (name, s) =>
      if name.toList = cs.take 2 then some (s, name, some (String.ofList (cs.drop 2)))
      else if cs.isPrefixOf name.toList then some (s, name, none)
      else none

/-- Tell switches from plain words. A word that starts with a hyphen is a switch, known or not,
unless it is a number or has a blank. -/
def token (g : Grammar σ) (word : String) : Except Stop (Token σ) :=
  match word.toList with
  | '-' :: c :: cs =>
    match g.find? word with
    | some s => .ok (.switch word s word none)
    | none =>
      let (stem, attached) := cutAtEquals ('-' :: c :: cs)
      match attached, g.find? (String.ofList stem) with
      | some text, some s => .ok (.switch word s (String.ofList stem) (some (String.ofList text)))
      | _, _ =>
        match g.candidates ('-' :: c :: cs) with
        | [] =>
          .ok (if isUnsignedNumber (c :: cs) || (c :: cs).contains ' ' then .plain word
            else .unknown word)
        | [(s, name, attached)] => .ok (.switch word s name attached)
        | several =>
          .error (g.refuse ("ambiguous option: " ++ word ++ " could match " ++
            ", ".intercalate (several.map fun (_, name, _) => name)))
  | _ => .ok (.plain word)

/-- Tell switches from plain words up to the first separator; after it all words are plain. -/
def tokens (g : Grammar σ) : List String → Except Stop (List (Token σ))
  | [] => .ok []
  | word :: words =>
    if word = "--" then .ok (.separator :: words.map .plain)
    else
      match g.token word with
      | .error stop => .error stop
      | .ok t =>
        match g.tokens words with
        | .error stop => .error stop
        | .ok ts => .ok (t :: ts)

def ignored (g : Grammar σ) (s : Switch σ) (text : List Char) : Stop :=
  g.refuse ("argument " ++ s.label ++ ": ignored explicit argument " ++
    Text.quote (String.ofList text))

/-- The switches in one word: a switch with text attached is given the text as its value, or else
the text holds more short switches. -/
def unpack (g : Grammar σ) (s : Switch σ) (name : String) :
    List Char → Except Stop (List (Switch σ × Option String))
  | [] =>
    match s.effect with
    | .valued _ => .ok [(s, some "")]
    | _ => .error (g.ignored s [])
  | c :: cs =>
    match s.effect with
    | .valued _ => .ok [(s, some (String.ofList (c :: cs)))]
    | _ =>
      match name.toList, g.find? (String.ofList ['-', c]) with
      | [_, _], some next =>
        if cs.isEmpty then .ok [(s, none), (next, none)]
        else
          match g.unpack next (String.ofList ['-', c]) cs with
          | .error stop => .error stop
          | .ok more => .ok ((s, none) :: more)
      | _, _ => .error (g.ignored s (c :: cs))

/-- Carry out one switch. -/
def apply (g : Grammar σ) (state : σ) (s : Switch σ) (value : Option String) : Except Stop σ :=
  let missing := g.refuse ("argument " ++ s.label ++ ": expected one argument")
  match s.effect, value with
  | .display text, _ => .error (.shown text)
  | .flag update, _ => .ok (update state)
  | .valued _, none => .error missing
  | .valued update, some text =>
    match update text with
    | .ok f => .ok (f state)
    | .error message => .error (g.refuse ("argument " ++ s.label ++ ": " ++ message))

def applyAll (g : Grammar σ) (state : σ) :
    List (Switch σ × Option String) → Except Stop σ
  | [] => .ok state
  | (s, value) :: rest =>
    match g.apply state s value with
    | .error stop => .error stop
    | .ok state => g.applyAll state rest

end Grammar

/-- The numbers from `high` down to `low`. -/
def downTo (high low : Nat) : List Nat := (List.range (high + 1 - low)).map (high - ·)

/-- How many of the next words a slot could take, the largest number first. Separators before the
first word of a slot go with it. -/
def Arity.counts (a : Arity) (kinds : List TokenKind) : List Nat :=
  let lead := (kinds.takeWhile (· = .separator)).length
  let run := (kinds.takeWhile (· ≠ .switch)).length
  let least := lead + 1
  match a, kinds[lead]? with
  | any, _ => downTo run 0
  | one, Option.some .plain =>
    downTo (least + ((kinds.drop least).takeWhile (· = .separator)).length) least
  | Arity.some, Option.some .plain => downTo run least
  | command, Option.some .plain => downTo kinds.length least
  | _, _ => []

/-- How many words each slot takes, if all of them can be filled from the next words. -/
def fit : List Arity → List TokenKind → Option (List Nat)
  | [], _ => Option.some []
  | a :: as, kinds =>
    (a.counts kinds).findSome? fun n => (fit as (kinds.drop n)).map (n :: ·)

/-- How many words each slot takes, for as many slots as can be filled. -/
def bestFit (slots : List Arity) (kinds : List TokenKind) : List Nat :=
  ((downTo slots.length 0).findSome? fun n => fit (slots.take n) kinds).getD []

/-- Fill slots with the given numbers of words. The first separator among the words of a slot is
dropped, except from those of a command. -/
def fillSlots (state : σ) : List (Slot σ × Nat) → List (Token σ) → Except Stop σ
  | [], _ => .ok state
  | (slot, n) :: rest, ts =>
    let words := (ts.take n).map Token.word
    match slot.fill (if slot.arity = .command then words else words.erase "--") with
    | .error stop => .error stop
    | .ok f => fillSlots (f state) rest (ts.drop n)

/-- What has been read of a command line. -/
structure Reading (σ : Type) where
  state : σ
  slots : List (Slot σ)
  leftOver : List String

namespace Grammar

/-- Fill as many slots as possible from the next words: the words taken, and what has been read. -/
def fillNext (r : Reading σ) (ts : List (Token σ)) : Except Stop (Nat × Reading σ) :=
  let counts := bestFit (r.slots.map Slot.arity) (ts.map Token.kind)
  match fillSlots r.state (r.slots.zip counts) ts with
  | .error stop => .error stop
  | .ok state =>
    .ok (counts.foldl (· + ·) 0, ⟨state, r.slots.drop counts.length, r.leftOver⟩)

/-- Fill the last slots, and see whether one that needs a word is left. -/
def finish (g : Grammar σ) (r : Reading σ) (ts : List (Token σ)) :
    Except Stop (σ × List String) :=
  match fillNext r ts with
  | .error stop => .error stop
  | .ok (n, r) =>
    match r.slots.filter (·.arity ≠ .any) with
    | [] => .ok (r.state, r.leftOver ++ (ts.drop n).map Token.word)
    | missing =>
      .error (g.refuse ("the following arguments are required: " ++
        ", ".intercalate (missing.map Slot.label)))

/-- Take switches as they come, and fill slots from the words between them. -/
def readTokens (g : Grammar σ) (r : Reading σ) (ts : List (Token σ)) :
    Except Stop (σ × List String) :=
  if ts.any Token.isSwitch then
    match ts with
    | [] => g.finish r []
    | .unknown word :: rest => g.readTokens { r with leftOver := r.leftOver ++ [word] } rest
    | .switch _ s name (some text) :: rest =>
      match g.unpack s name text.toList with
      | .error stop => .error stop
      | .ok switches =>
        match g.applyAll r.state switches with
        | .error stop => .error stop
        | .ok state => g.readTokens { r with state := state } rest
    | .switch _ s _ none :: .plain word :: rest =>
      match s.effect with
      | .valued _ =>
        match g.apply r.state s (some word) with
        | .error stop => .error stop
        | .ok state => g.readTokens { r with state := state } rest
      | _ =>
        match g.apply r.state s none with
        | .error stop => .error stop
        | .ok state => g.readTokens { r with state := state } (.plain word :: rest)
    | .switch _ s _ none :: rest =>
      match g.apply r.state s none with
      | .error stop => .error stop
      | .ok state => g.readTokens { r with state := state } rest
    | t :: rest =>
      match fillNext r (t :: rest) with
      | .error stop => .error stop
      | .ok (0, r) =>
        let skipped := rest.takeWhile (!·.isSwitch)
        g.readTokens { r with leftOver := r.leftOver ++ t.word :: skipped.map Token.word }
          (rest.dropWhile (!·.isSwitch))
      | .ok (n + 1, r) => g.readTokens r (rest.drop n)
  else g.finish r ts
  termination_by ts.length
  decreasing_by
    all_goals simp only [List.length_cons, List.length_drop]
    all_goals first
      | omega
      | exact Nat.lt_succ_of_le (List.dropWhile_sublist _).length_le

/-- Read a command line: what the switches and slots make of the state, and the words left over. -/
def read (g : Grammar σ) (state : σ) (words : List String) : Except Stop (σ × List String) :=
  match g.tokens words with
  | .error stop => .error stop
  | .ok ts => g.readTokens ⟨state, g.slots, []⟩ ts

end Grammar

end FeatureLattice.CommandLine
