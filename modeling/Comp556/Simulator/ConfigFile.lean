import Comp556.Foundation.Text
import Comp556.Simulator.Run

/-!
# The configuration file

`Simulator::init` reads the nodes, the links and the events of a simulation from a file, line by line.
-/

namespace Comp556.Sim

open Text

/-- How reading a configuration ends, other than by returning. -/
inductive Failure where
  | exits (message : String)
  /-- The turns that the loop over the nodes was given are used up. -/
  | unfinished
  /-- A null pointer is dereferenced, or a number does not fit into an `int`. -/
  | undefined
  deriving DecidableEq, Repr

/-- What `atof` makes of a text: `(unsigned int) (atof(s) * 1000)`, and a loss probability. -/
structure Atof where
  millis : Text → UInt32
  prob : Text → ℚ

/-- `DEFAULT_DELAY` in milliseconds. -/
def defaultDelay : UInt32 := 100

def defaultProb : ℚ := 4 / 5

/-- What `init` has read. A pointer to a node is a position in `node_table`, which lists the nodes in an
order of its own; a null pointer is the position after the last one, for links as well. -/
structure Parsed where
  nodeTable : Table UInt16 Unit
  /-- `node_table[]` has entered a null pointer for a node that is not there. -/
  nullNode : Bool
  links : List Link
  /-- The ends of each link as they were read, the last one first. -/
  linkTable : List ((Int × Int) × Nat)
  events : List (UInt32 × ConfigEvent)
  stopTime : UInt32

/-- `equal_pair`. -/
def equalPair (one two : Int × Int) : Bool :=
  (one.1 = two.1 && one.2 = two.2) || (one.1 = two.2 && one.2 = two.1)

namespace Parsed

variable (p : Parsed)

def empty : Parsed := ⟨.empty, false, [], [], [], 0⟩

/-- `node_table[id]`. -/
def node (id : Int) : Nat := p.nodeTable.keys.findIdx fun key => (key.toNat : Int) = id

/-- `link_table[ends]`. -/
def link (ends : Int × Int) : Nat :=
  ((p.linkTable.find? fun e => equalPair e.1 ends).map Prod.snd).getD p.links.length

/-- A new link is entered into `link_table` and into the `link_vector` of both its ends. -/
def addLink (ends : Int × Int) (delay : UInt32) (lossProb : ℚ) : Except Failure Parsed :=
  if p.node ends.1 < p.nodeTable.size ∧ p.node ends.2 < p.nodeTable.size then
    .ok { p with
      links := p.links ++ [⟨true, delay, lossProb, p.node ends.1, p.node ends.2⟩]
      linkTable := (ends, p.links.length) :: p.linkTable }
  else .error .undefined

/-- The check at the end of the loop over the events, and `event_q.push`. -/
def push (temp : Text) (time : UInt32) (e : ConfigEvent) : Except Failure Parsed :=
  if temp.find "(".toList = npos ∨ temp.find ")".toList = npos ∨ temp.find ",".toList = npos then
    .error (.exits "Error:events configuration format error\n")
  else .ok { p with events := p.events ++ [(time, e)] }

def config : Config := ⟨p.nodeTable.keys, p.links, p.events, p.stopTime⟩

end Parsed

/-- `Simulator::trim`: the first carriage return goes, and the blanks at both ends. The source keeps its
positions in `int` and `unsigned int`, so this is about texts of less than 2^31 characters. -/
def trim (s : Text) : Text := ((s.erase '\r').dropWhile (· = ' ')).rdropWhile (· = ' ')

/-- The lines that `getline` reads, and whether the last one ends in a newline. -/
def splitLines (file : Text) : List Text × Bool :=
  let lines := file.splitOn '\n'
  if lines.getLast? = some [] then (lines.dropLast, true) else (lines, false)

/-- `getline` into `line`. At the end of the file it fails: it empties `line` if the last line ended in a
newline; otherwise the stream is no longer good, and `line` stays as it is. -/
def getline (terminated : Bool) (line : Text) : List Text → Text × List Text
  | next :: lines => (next, lines)
  | [] => (if terminated then [] else line, [])

/-- `atoi` where the result is used. -/
def int (s : Text) : Except Failure Int := (atoi s).elim (.error .undefined) .ok

def addNode (layout : Layout UInt16) (nodeid : Int) (nodes : Table UInt16 Unit) : Table UInt16 Unit :=
  nodes.insert layout (UInt16.ofInt nodeid) ()

/-- The loop over a line of nodes, with what it leaves of the line. Every turn takes a character off the
line, so its length bounds them. -/
def readIds (layout : Layout UInt16) :
    Nat → Text → Table UInt16 Unit → Except Failure (Table UInt16 Unit × Text)
  | 0, line, nodes => .ok (nodes, line)
  | fuel + 1, line, nodes =>
    if line = [] then .ok (nodes, line)
    else
      let pos := line.find " ".toList
      if pos ≠ npos then
        (int (line.substr 0 pos)).bind fun nodeid =>
          readIds layout fuel (line.eraseFront (pos + 1)) (addNode layout nodeid nodes)
      else (int (trim line)).map fun nodeid => (addNode layout nodeid nodes, line)

/-- The loop over the lines of nodes, which returns the line that ends it and those after it. It does not
look at what `getline` returns, so that nothing bounds its turns. -/
def readNodes (layout : Layout UInt16) (terminated : Bool) :
    Nat → Text → List Text → Table UInt16 Unit → Except Failure (Table UInt16 Unit × Text × List Text)
  | 0, _, _, _ => .error .unfinished
  | turns + 1, line, lines, nodes =>
    if line.find "[".toList ≠ npos then .ok (nodes, line, lines)
    else
      (readIds layout line.length line nodes).bind fun read =>
        let next := getline terminated read.2 lines
        readNodes layout terminated turns (trim next.1) next.2 read.1

def readNodesIfNamed (layout : Layout UInt16) (terminated : Bool) (turns : Nat) (header : Text)
    (lines : List Text) :
    Except Failure (Table UInt16 Unit × Text × List Text) :=
  if header.find "nodes".toList ≠ npos then
    let next := getline terminated header lines
    readNodes layout terminated turns (trim next.1) next.2 .empty
  else .ok (.empty, header, lines)

/-- A field of a link: the text of its value, if it has one, and the rest of the line. The keyword is
looked for in all of the line, but taken off its front. -/
def readField (keyword line : Text) : Option Text × Text :=
  if line.find keyword ≠ npos then
    let line := trim (line.eraseFront keyword.size)
    let pos2 := line.find " ".toList
    (some (trim (line.substr 0 pos2)), trim (line.eraseFront pos2))
  else (none, line)

/-- The last field of a link goes up to the end of the line. -/
def readProb (line : Text) : Option Text :=
  if line.find "prob".toList ≠ npos then
    let line := trim (line.eraseFront 4)
    some (trim (line.substr 0 line.size))
  else none

def linkFormatError : Failure := .exits "Error: wrong format in link definition \n"

def readEnds (link : Text) : Except Failure (Int × Int) :=
  let pos2 := link.find ",".toList
  if pos2 = npos then .error linkFormatError
  else do
    let linkFrom ← int (trim (link.substr 0 pos2))
    let linkTo ← int (trim (link.substr (pos2 + 1) link.size))
    return (linkFrom, linkTo)

/-- One turn of the loop over the links, which trims its line once more. The cost is read over. -/
def readLink (atof : Atof) (line : Text) (p : Parsed) : Except Failure Parsed :=
  let line := trim line
  if line.find "(".toList ≠ 0 then .error linkFormatError
  else
    let pos := line.find ")".toList
    if pos = npos then .error linkFormatError
    else do
      let ends ← readEnds (trim (line.substr 1 (pos - 1)))
      let delay := readField "delay".toList (trim (line.eraseFront (pos + 1)))
      let cost := readField "cost".toList delay.2
      let prob := readProb cost.2
      p.addLink ends (delay.1.elim defaultDelay atof.millis) (prob.elim defaultProb atof.prob)

/-- The line after a keyword found at `pos`, or after the first characters of it. -/
def textAfter (line : Text) (pos skip : UInt64) : Text :=
  trim (line.substr (pos + skip) (line.size - pos - skip))

def readPair (temp : Text) : Except Failure (Int × Int) := do
  let pos := temp.find ",".toList
  let src ← int (trim (temp.substr (temp.find "(".toList + 1) (pos - 1)))
  let dst ← int (trim (temp.substr (pos + 1) (temp.find ")".toList - pos - 1)))
  return (src, dst)

/-- The two numbers, cut down to `unsigned short`. -/
def shorts (pair : Int × Int) : UInt16 × UInt16 := (UInt16.ofInt pair.1, UInt16.ofInt pair.2)

def ends (pair : UInt16 × UInt16) : Int × Int := (pair.1.toNat, pair.2.toNat)

/-- The packet of an `xmit` event. -/
def dataPacket (fresh : Memory) (pair : UInt16 × UInt16) : Packet :=
  ⟨((((Buffer.malloc fresh 8).store8 0 PacketType.data.code).store16 2 (htons 8)).store16 4
    (htons pair.1)).store16 6 (htons pair.2), 8⟩

/-- `Event_Xmit_Pkt_End_To_End_Generic` with the nodes that `node_table` has for the two ids. -/
def Parsed.xmit (p : Parsed) (fresh : Memory) (pair : UInt16 × UInt16) : Parsed × ConfigEvent :=
  let src := p.node (ends pair).1
  let dst := p.node (ends pair).2
  ({ p with nullNode := p.nullNode || decide (¬ (src < p.nodeTable.size ∧ dst < p.nodeTable.size)) },
    .xmitPktEndToEnd src (dataPacket fresh pair))

def readEvent (atof : Atof) (fresh : Memory) (line : Text) (p : Parsed) : Except Failure Parsed :=
  let time := atof.millis (line.substr 0 (line.find " ".toList))
  let dying := line.find "linkdying".toList
  let comingup := line.find "linkcomingup".toList
  let xmit := line.find "xmit".toList
  let changedelay := line.find "changedelay".toList
  if dying ≠ npos then do
    let temp := textAfter line dying 9
    let pair ← readPair temp
    p.push temp time (.linkDie (p.link pair))
  else if comingup ≠ npos then do
    let temp := textAfter line comingup 12
    let pair ← readPair temp
    p.push temp time (.linkComeUp (p.link pair))
  else if xmit ≠ npos then do
    let temp := textAfter line xmit 4
    let pair ← readPair temp
    let (p, e) := p.xmit fresh (shorts pair)
    p.push temp time e
  else if changedelay ≠ npos then do
    -- only the first four letters are taken off
    let temp := textAfter line changedelay 4
    let pair ← readPair temp
    let newdelay := atof.millis (temp.substr (temp.find ")".toList + 1) npos)
    p.push temp time (.changeDelay (p.link (ends (shorts pair))) newdelay)
  else if line.find "end".toList ≠ npos then .ok { p with stopTime := time }
  else .error (.exits "Error: events definition error - unrecogonized key words\n")

/-- The loop over a section: blank lines are skipped, and a line with a bracket ends it. That line and
those after it are returned, unless the file ends first. -/
def readSection (read : Text → Parsed → Except Failure Parsed) :
    List Text → Parsed → Except Failure (Parsed × Option (Text × List Text))
  | [], p => .ok (p, none)
  | next :: lines, p =>
    let line := trim next
    if line = [] then readSection read lines p
    else if line.find "[".toList ≠ npos then .ok (p, some (line, lines))
    else (read line p).bind (readSection read lines)

def readIfNamed (name : Text) (read : Text → Parsed → Except Failure Parsed) (p : Parsed) :
    Option (Text × List Text) → Except Failure (Parsed × Option (Text × List Text))
  | none => .ok (p, none)
  | some (header, lines) =>
    if header.find name ≠ npos then readSection read lines p else .ok (p, some (header, lines))

def readSections (layout : Layout UInt16) (atof : Atof) (fresh : Memory) (terminated : Bool) (turns : Nat)
    (header : Text) (lines : List Text) : Except Failure Parsed := do
  let (nodes, header, lines) ← readNodesIfNamed layout terminated turns header lines
  let (p, next) ← readIfNamed "links".toList (readLink atof) { Parsed.empty with nodeTable := nodes }
    (some (header, lines))
  let (p, _) ← readIfNamed "events".toList (readEvent atof fresh) p next
  return p

/-- `Simulator::init`, with as many turns of the loop over the nodes as given. -/
def init (layout : Layout UInt16) (atof : Atof) (fresh : Memory) (turns : Nat) (file : Text) :
    Except Failure Parsed :=
  let (lines, terminated) := splitLines file
  match lines.dropWhile fun line => trim line = [] with
  | [] => .ok .empty
  | header :: lines =>
    if header.find "[".toList = npos then .ok .empty
    else readSections layout atof fresh terminated turns header lines

/-- `main` up to the call of `run`. A null pointer in `node_table` is dereferenced in
`init_routing_protocol`. -/
def boot (queue : EventQueue) (layout : Layout UInt16) (atof : Atof) (fresh : Memory) (chances : Nat → Chance)
    (type : ProtocolType) (turns : Nat) (file : Text) : Except Failure (Simulator queue Router) :=
  (init layout atof fresh turns file).bind fun p =>
    if p.nullNode then .error .undefined
    else (Simulator.started queue p.config (routingProtocolImpl type) chances).elim (.error .undefined) .ok

def sampleAtof : Atof :=
  let value (s : Text) : Nat := Nat.ofDigitChars 10 (s.filter Char.isDigit) 0
  let scale (s : Text) : Nat := 10 ^ ((s.dropWhile (· ≠ '.')).drop 1).length
  ⟨fun s => UInt32.ofNat (value s * 1000 / scale s), fun s => value s / scale s⟩

def sampleFile : Text :=
  ("[nodes]\r\n \r\n1 2 3\r\n[links]\n(1,2) delay 0.010 prob 0.0\n(1,3) cost 4\n\n" ++
    "[events]\n60.00  xmit (1,3)\n100.00 changedelay (1,2)0.600\n120.00 linkdying (3,1)\n200.00 end").toList

end Comp556.Sim
