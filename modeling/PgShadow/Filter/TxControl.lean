/-
# PostgreSQL's transaction control

What the classifier has to recognise, said without it: the texts that
PostgreSQL reads as sequences of transaction-control statements (BEGIN, START
TRANSACTION, COMMIT, END, ROLLBACK, ABORT, SAVEPOINT, RELEASE and ROLLBACK TO,
with all their optional words), and what these statements do to the
transaction block of a session.

A text is a sequence of lexical items: white space, comments, words in any
case, quoted identifiers, commas and semicolons. Identifiers with Unicode
escapes are not covered. Whether the savepoint that a statement names exists is
left open, so every text that succeeds on a server succeeds here.

Key definitions: `Item`, `Stmt`, `Query`, `Stmt.exec`, `Query.exec`.
-/
import PgShadow.Filter.Classifier

namespace PgShadow.TxControl

/-! ### Lexical items -/

inductive Item
  | space (c : UInt8)
  /-- A comment to the end of the line, and the byte that ends the line. -/
  | line (text : Bytes) (ending : UInt8)
  /-- A comment to the end of the line, in the last line. -/
  | tail (text : Bytes)
  /-- What follows the opening of a block comment. -/
  | block (text : Bytes)
  | word (w : Bytes)
  | quoted (w : Bytes)
  | comma
  | semi
deriving DecidableEq

namespace Item

/-- The text inside a quoted identifier. -/
def doubled : Bytes → Bytes
  | [] => []
  | c :: t => if c = chr '"' then c :: c :: doubled t else c :: doubled t

def text : Item → Bytes
  | space c => [c]
  | line t e => chr '-' :: chr '-' :: t ++ [e]
  | tail t => chr '-' :: chr '-' :: t
  | block t => chr '/' :: chr '*' :: t
  | word w => w
  | quoted w => chr '"' :: doubled w ++ [chr '"']
  | comma => [chr ',']
  | semi => [chr ';']

/-- The text closes `d` nested block comments with its last byte. -/
def closes : ℕ → Bytes → Bool
  | 0, s => s.isEmpty
  | _ + 1, [] => false
  | _ + 1, [_] => false
  | d + 1, a :: b :: t =>
    if a = chr '/' ∧ b = chr '*' then closes (d + 2) t
    else if a = chr '*' ∧ b = chr '/' then closes d t
    else closes (d + 1) (b :: t)

def isSpace (c : UInt8) : Bool := c == 32 || (9 ≤ c && c ≤ 13)

def isNewline (c : UInt8) : Bool := c == 10 || c == 13

def ok : Item → Bool
  | space c => isSpace c
  | line t e => !t.any isNewline && isNewline e
  | tail t => !t.any isNewline
  | block t => closes 1 t
  | word w => w.head?.any isIdentStart && w.all fun c => isIdentPart c || c == chr '$'
  | quoted w => !w.isEmpty
  | comma | semi => true

/-- Items without meaning. -/
def blank : Item → Bool
  | space _ | line _ _ | tail _ | block _ => true
  | word _ | quoted _ | comma | semi => false

def isTail : Item → Bool
  | tail _ => true
  | _ => false

def isWord : Item → Bool
  | word _ => true
  | _ => false

end Item

def render (is : List Item) : Bytes := is.flatMap Item.text

/-- The items can be read off their text: words are kept apart, and a comment
in the last line comes last. -/
def spelled : List Item → Bool
  | [] => true
  | [i] => i.ok
  | i :: j :: is => i.ok && !i.isTail && !(i.isWord && j.isWord) && spelled (j :: is)

/-! ### Statements -/

inductive Noise
  | work
  | transaction

inductive Level
  | serializable
  | repeatableRead
  | readCommitted
  | readUncommitted

inductive Mode
  | isolation (level : Level)
  | readWrite
  | readOnly
  | deferrable
  | notDeferrable

inductive Verb
  | commit
  | endBlock
  | rollback
  | abort
deriving DecidableEq

/-- A mode of BEGIN comes with the flag whether a comma stands before it, which
means nothing at the first. `chain` is AND CHAIN or AND NO CHAIN. -/
inductive Stmt
  | begin (noise : Option Noise) (modes : List (Bool × Mode))
  | start (modes : List (Bool × Mode))
  | finish (verb : Verb) (noise : Option Noise) (chain : Option Bool)
  | savepoint
  | release (keyword : Bool)
  | rollbackTo (noise : Option Noise) (keyword : Bool)

/-- What the grammar asks for next. -/
inductive Sym
  | kw (k : Bytes)
  | name
  | comma

/-- Keywords are read in any case. -/
def fold (w : Bytes) : Bytes := w.map fun c => if 65 ≤ c ∧ c ≤ 90 then c + 32 else c

def Sym.reads : Sym → Item → Bool
  | .kw k, .word w => fold w == k
  | .name, .word _ => true
  | .name, .quoted _ => true
  | .comma, .comma => true
  | _, _ => false

def Noise.keyword : Noise → Bytes
  | work => bytes "work"
  | transaction => bytes "transaction"

def Verb.keyword : Verb → Bytes
  | commit => bytes "commit"
  | endBlock => bytes "end"
  | rollback => bytes "rollback"
  | abort => bytes "abort"

def Level.syms : Level → List Sym
  | serializable => [.kw (bytes "serializable")]
  | repeatableRead => [.kw (bytes "repeatable"), .kw (bytes "read")]
  | readCommitted => [.kw (bytes "read"), .kw (bytes "committed")]
  | readUncommitted => [.kw (bytes "read"), .kw (bytes "uncommitted")]

def Mode.syms : Mode → List Sym
  | isolation l => .kw (bytes "isolation") :: .kw (bytes "level") :: l.syms
  | readWrite => [.kw (bytes "read"), .kw (bytes "write")]
  | readOnly => [.kw (bytes "read"), .kw (bytes "only")]
  | deferrable => [.kw (bytes "deferrable")]
  | notDeferrable => [.kw (bytes "not"), .kw (bytes "deferrable")]

def modesSyms : List (Bool × Mode) → List Sym
  | [] => []
  | (_, m) :: ms => m.syms ++ ms.flatMap fun p => if p.1 then .comma :: p.2.syms else p.2.syms

def noiseSyms (noise : Option Noise) : List Sym := (noise.map fun n => Sym.kw n.keyword).toList

def chainSyms : Option Bool → List Sym
  | none => []
  | some true => [.kw (bytes "and"), .kw (bytes "chain")]
  | some false => [.kw (bytes "and"), .kw (bytes "no"), .kw (bytes "chain")]

def savepointSyms (keyword : Bool) : List Sym := if keyword then [.kw (bytes "savepoint"), .name] else [.name]

namespace Stmt

/-- The keyword a statement begins with. -/
def lead : Stmt → Bytes
  | begin _ _ => bytes "begin"
  | start _ => bytes "start"
  | finish v _ _ => v.keyword
  | savepoint => bytes "savepoint"
  | release _ => bytes "release"
  | rollbackTo _ _ => bytes "rollback"

/-- What follows it. -/
def more : Stmt → List Sym
  | begin noise modes => noiseSyms noise ++ modesSyms modes
  | start modes => .kw (bytes "transaction") :: modesSyms modes
  | finish _ noise chain => noiseSyms noise ++ chainSyms chain
  | savepoint => [.name]
  | release keyword => savepointSyms keyword
  | rollbackTo noise keyword => noiseSyms noise ++ .kw (bytes "to") :: savepointSyms keyword

def syms (s : Stmt) : List Sym := .kw s.lead :: s.more

/-- The effect on the session, from whether it is in a transaction block to
whether it is afterwards; `none` is an error. -/
def exec : Stmt → Bool → Option Bool
  | begin _ _, _ => some true
  | start _, _ => some true
  | finish _ _ (some true), inBlock => if inBlock then some true else none
  | finish _ _ _, _ => some false
  | savepoint, inBlock => if inBlock then some true else none
  | release _, inBlock => if inBlock then some true else none
  | rollbackTo _ _, inBlock => if inBlock then some true else none

end Stmt

/-! ### Queries -/

/-- The items, blanks aside, are what the symbols ask for. -/
def reads : List Sym → List Item → Bool
  | [], [] => true
  | _ :: _, [] => false
  | ss, i :: is =>
    if i.blank then reads ss is
    else
      match ss with
      | [] => false
      | s :: ss => s.reads i && reads ss is

/-- What lies between two semicolons: a statement, or none. -/
structure Segment where
  stmt : Option Stmt
  items : List Item
  reads : reads (stmt.elim [] Stmt.syms) items = true

def joined : List Segment → List Item
  | [] => []
  | [p] => p.items
  | p :: q :: ps => p.items ++ .semi :: joined (q :: ps)

/-- The text of a Simple_Query: statements separated by semicolons. -/
structure Query where
  segments : List Segment
  spelled : spelled (joined segments) = true

namespace Query

def items (q : Query) : List Item := joined q.segments

def text (q : Query) : Bytes := render q.items

def stmts (q : Query) : List Stmt := q.segments.filterMap Segment.stmt

/-- The statements are executed in order, up to the first error. -/
def exec (q : Query) (inBlock : Bool) : Option Bool := q.stmts.foldlM (fun b s => s.exec b) inBlock

end Query

/-- Whether a session is in a transaction block once all queries succeeded. -/
def execAll (qs : List Query) : Option Bool := qs.foldlM (fun b q => q.exec b) false

end PgShadow.TxControl
