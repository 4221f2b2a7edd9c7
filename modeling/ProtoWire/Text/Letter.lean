import ProtoWire.Text.CharSet

/-!
# Letter case

* `toUppercase`, `toLowercase`: the full case mappings of single characters, without regard to what
  surrounds them. A mapping may give several characters, as for `ß`.
-/

namespace ProtoWire.Text

/-! ### Tables -/

/-- Code points that are mapped to one `shift` away. -/
structure CaseRun where
  range : CodeRange
  shift : Int

def CaseRun.ofLengths (next : Nat) : List (Nat × Nat × Nat × Int) → List CaseRun
  | [] => []
  | (gap, length, stride, shift) :: rest =>
    let range := CodeRange.behind next gap length stride
    ⟨range, shift⟩ :: ofLengths (range.last + 1) rest

def CaseRun.inverse (run : CaseRun) : CaseRun :=
  let move (code : Nat) : Nat := (code + run.shift).toNat
  ⟨{ run.range with first := move run.range.first, last := move run.range.last }, -run.shift⟩

/-- Characters with a lowercase mapping of one character: lengths of gaps and runs, with strides and
shifts. -/
def lowerRuns : List (Nat × Nat × Nat × Int) :=
  [(65,26,1,32),(101,23,1,32),(1,7,1,32),(33,24,2,1),(3,3,2,1),(2,8,2,1),(2,23,2,1),(1,1,1,-121),
   (0,3,2,1),(3,1,1,210),(0,2,2,1),(1,1,1,206),(0,1,1,1),(1,2,1,205),(0,1,1,1),(2,1,1,79),
   (0,1,1,202),(0,1,1,203),(0,1,1,1),(1,1,1,205),(0,1,1,207),(1,1,1,211),(0,1,1,209),(0,1,1,1),
   (3,1,1,211),(0,1,1,213),(1,1,1,214),(0,3,2,1),(1,1,1,218),(0,1,1,1),(1,1,1,218),(2,1,1,1),
   (1,1,1,218),(0,1,1,1),(1,2,1,217),(0,2,2,1),(1,1,1,219),(0,1,1,1),(3,1,1,1),(7,1,1,2),(0,1,1,1),
   (1,1,1,2),(0,1,1,1),(1,1,1,2),(0,9,2,1),(2,9,2,1),(2,1,1,2),(0,2,2,1),(1,1,1,-97),(0,1,1,-56),
   (0,20,2,1),(1,1,1,-130),(1,9,2,1),(7,1,1,10795),(0,1,1,1),(1,1,1,-163),(0,1,1,10792),(2,1,1,1),
   (1,1,1,-195),(0,1,1,69),(0,1,1,71),(0,5,2,1),(289,2,2,1),(3,1,1,1),(8,1,1,116),(6,1,1,38),
   (1,3,1,37),(1,1,1,64),(1,2,1,63),(1,17,1,32),(1,9,1,32),(35,1,1,8),(8,12,2,1),(5,1,1,-60),
   (2,1,1,1),(1,1,1,-7),(0,1,1,1),(2,3,1,-130),(0,16,1,80),(0,32,1,32),(48,17,2,1),(9,27,2,1),
   (1,1,1,15),(0,7,2,1),(2,48,2,1),(2,38,1,48),(2889,38,1,7264),(1,1,1,7264),(5,1,1,7264),
   (722,80,1,38864),(0,6,1,8),(2195,1,1,1),(6,43,1,-3008),(2,3,1,-3008),(320,75,2,1),(9,1,1,-7615),
   (1,48,2,1),(9,8,1,-8),(8,6,1,-8),(10,8,1,-8),(8,8,1,-8),(8,6,1,-8),(11,4,2,-8),(8,8,1,-8),
   (24,8,1,-8),(8,8,1,-8),(8,8,1,-8),(8,2,1,-8),(0,2,1,-74),(0,1,1,-9),(11,4,1,-86),(0,1,1,-9),
   (11,2,1,-8),(0,2,1,-100),(12,2,1,-8),(0,2,1,-112),(0,1,1,-7),(11,2,1,-128),(0,2,1,-126),
   (0,1,1,-9),(297,1,1,-7517),(3,1,1,-8383),(0,1,1,-8262),(6,1,1,28),(45,16,1,16),(19,1,1,1),
   (818,26,1,26),(1840,48,1,48),(48,1,1,1),(1,1,1,-10743),(0,1,1,-3814),(0,1,1,-10727),(2,3,2,1),
   (1,1,1,-10780),(0,1,1,-10749),(0,1,1,-10783),(0,1,1,-10782),(1,1,1,1),(2,1,1,1),(8,2,1,-10815),
   (0,50,2,1),(8,2,2,1),(4,1,1,1),(31053,23,2,1),(19,14,2,1),(135,7,2,1),(3,31,2,1),(10,2,2,1),
   (1,1,1,-35332),(0,5,2,1),(4,1,1,1),(1,1,1,-42280),(2,2,2,1),(3,10,2,1),(1,1,1,-42308),
   (0,1,1,-42319),(0,1,1,-42315),(0,1,1,-42305),(0,1,1,-42308),(1,1,1,-42258),(0,1,1,-42282),
   (0,1,1,-42261),(0,1,1,928),(0,8,2,1),(1,1,1,-48),(0,1,1,-42307),(0,1,1,-35384),(0,2,2,1),
   (1,1,1,-42343),(0,8,2,1),(1,1,1,-42561),(24,1,1,1),(22315,26,1,32),(1221,40,1,40),(136,36,1,40),
   (156,11,1,39),(1,15,1,39),(1,7,1,39),(1,2,1,39),(1770,51,1,64),(157,22,1,32),(2874,32,1,32),
   (21888,32,1,32),(64,25,1,27),(31303,34,1,34)]

/-- Characters whose uppercase mapping is not the character that they are the lowercase mapping of.
The first are Greek letters with an iota below, of which eight in a row are written as eight others
with an iota behind. -/
def upperExceptions : List (Nat × List Nat) :=
  ([(0x1f80, 0x1f08), (0x1f88, 0x1f08), (0x1f90, 0x1f28), (0x1f98, 0x1f28), (0x1fa0, 0x1f68),
    (0x1fa8, 0x1f68)].flatMap fun (first, target) =>
      (List.range 8).map fun i => (first + i, [target + i, 0x399])) ++
  [(0xb5,[0x39c]),(0xdf,[0x53,0x53]),(0x131,[0x49]),(0x149,[0x2bc,0x4e]),(0x17f,[0x53]),
   (0x1c5,[0x1c4]),(0x1c8,[0x1c7]),(0x1cb,[0x1ca]),(0x1f0,[0x4a,0x30c]),(0x1f2,[0x1f1]),
   (0x345,[0x399]),(0x390,[0x399,0x308,0x301]),(0x3b0,[0x3a5,0x308,0x301]),(0x3c2,[0x3a3]),
   (0x3d0,[0x392]),(0x3d1,[0x398]),(0x3d5,[0x3a6]),(0x3d6,[0x3a0]),(0x3f0,[0x39a]),(0x3f1,[0x3a1]),
   (0x3f5,[0x395]),(0x587,[0x535,0x552]),(0x1c80,[0x412]),(0x1c81,[0x414]),(0x1c82,[0x41e]),
   (0x1c83,[0x421]),(0x1c84,[0x422]),(0x1c85,[0x422]),(0x1c86,[0x42a]),(0x1c87,[0x462]),
   (0x1c88,[0xa64a]),(0x1e96,[0x48,0x331]),(0x1e97,[0x54,0x308]),(0x1e98,[0x57,0x30a]),
   (0x1e99,[0x59,0x30a]),(0x1e9a,[0x41,0x2be]),(0x1e9b,[0x1e60]),(0x1f50,[0x3a5,0x313]),
   (0x1f52,[0x3a5,0x313,0x300]),(0x1f54,[0x3a5,0x313,0x301]),(0x1f56,[0x3a5,0x313,0x342]),
   (0x1fb2,[0x1fba,0x399]),(0x1fb3,[0x391,0x399]),(0x1fb4,[0x386,0x399]),(0x1fb6,[0x391,0x342]),
   (0x1fb7,[0x391,0x342,0x399]),(0x1fbc,[0x391,0x399]),(0x1fbe,[0x399]),(0x1fc2,[0x1fca,0x399]),
   (0x1fc3,[0x397,0x399]),(0x1fc4,[0x389,0x399]),(0x1fc6,[0x397,0x342]),
   (0x1fc7,[0x397,0x342,0x399]),(0x1fcc,[0x397,0x399]),(0x1fd2,[0x399,0x308,0x300]),
   (0x1fd3,[0x399,0x308,0x301]),(0x1fd6,[0x399,0x342]),(0x1fd7,[0x399,0x308,0x342]),
   (0x1fe2,[0x3a5,0x308,0x300]),(0x1fe3,[0x3a5,0x308,0x301]),(0x1fe4,[0x3a1,0x313]),
   (0x1fe6,[0x3a5,0x342]),(0x1fe7,[0x3a5,0x308,0x342]),(0x1ff2,[0x1ffa,0x399]),
   (0x1ff3,[0x3a9,0x399]),(0x1ff4,[0x38f,0x399]),(0x1ff6,[0x3a9,0x342]),
   (0x1ff7,[0x3a9,0x342,0x399]),(0x1ffc,[0x3a9,0x399]),(0xfb00,[0x46,0x46]),(0xfb01,[0x46,0x49]),
   (0xfb02,[0x46,0x4c]),(0xfb03,[0x46,0x46,0x49]),(0xfb04,[0x46,0x46,0x4c]),(0xfb05,[0x53,0x54]),
   (0xfb06,[0x53,0x54]),(0xfb13,[0x544,0x546]),(0xfb14,[0x544,0x535]),(0xfb15,[0x544,0x53b]),
   (0xfb16,[0x54e,0x546]),(0xfb17,[0x544,0x53d])]

/-- Lengths of gaps and runs of what has the property Uppercase and no lowercase mapping. -/
def unmappedUppercase : List Nat :=
  [978,3,7469,1,4,1,3,3,2,3,2,1,3,5,6,1,3,1,3,2,2,2,1,1,10,2,5,1,111290,26,26,26,26,26,26,1,1,2,2,1,
   2,2,2,4,1,8,26,26,26,2,1,4,2,8,1,7,27,2,1,4,1,5,1,1,3,7,27,26,26,26,26,26,26,26,26,26,26,26,30,
   25,33,25,33,25,33,25,33,25,33,1,6501,26,6,26,6,26]

/-- Lengths of gaps and runs of what has the property Lowercase and no uppercase mapping. -/
def unmappedLowercase : List Nat :=
  [170,1,15,1,125,1,84,1,28,2,14,1,3,1,98,1,18,6,27,1,2,1,1,1,2,3,2,1,4,1,5,2,1,1,2,2,1,7,1,2,1,1,2,
   3,6,5,1,1,2,7,2,26,7,2,30,5,149,1,129,1,355,1,39,1,2931,1,3075,121,1,3,1,16,1,49,220,2,1,1,465,1,
   13,1,16,13,109,1,3,2,3,1,27,1,4,1,4,1,2,2,8,4,2855,1,2,1,2,7,102,1,31159,2,146,2,62,9,21,1,6,1,
   25,1,65,4,3,3,821,35,1,7,1,14,23574,1,2,3,1,42,1,9,52319,26,26,7,1,18,26,26,26,4,1,1,1,7,1,11,26,
   26,26,26,26,26,26,26,26,26,26,26,26,26,26,26,26,28,28,25,1,6,26,25,1,6,26,25,1,6,26,25,1,6,26,25,
   1,6,1,1,1844,10,1,20,6,6,261,62]

/-! ### Mappings and properties -/

/-- The character that runs map a character to, or the character itself. -/
def shiftBy (runs : List CaseRun) (c : Char) : Char :=
  match runs.find? (·.range.contains c.toNat) with
  | some run => Char.ofNat (c.toNat + run.shift).toNat
  | none => c

/-- The uppercase mapping of a character. -/
def toUppercase (c : Char) : List Char :=
  match upperExceptions.lookup c.toNat with
  | some codes => codes.map Char.ofNat
  | none => [shiftBy ((CaseRun.ofLengths 0 lowerRuns).map CaseRun.inverse) c]

/-- The lowercase mapping of a character. Only `İ` has more than one character. -/
def toLowercase (c : Char) : List Char :=
  if c == 'İ' then ['i', Char.ofNat 0x307] else [shiftBy (CaseRun.ofLengths 0 lowerRuns) c]

/-- Whether a character has the property Uppercase. Titlecase letters have both mappings and neither
property. -/
def isUppercase (c : Char) : Bool :=
  (toLowercase c != [c] && toUppercase c == [c]) ||
    (CharSet.ofLengths 0 unmappedUppercase).contains c

def isLowercase (c : Char) : Bool :=
  (toUppercase c != [c] && toLowercase c == [c]) ||
    (CharSet.ofLengths 0 unmappedLowercase).contains c

end ProtoWire.Text
