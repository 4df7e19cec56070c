namespace Scenograph

def isBlank (c : Char) : Bool :=
  let n := c.toNat
  (0x9 ≤ n && n ≤ 0xD) || n == 0x20 || n == 0x85 || n == 0xA0 || n == 0x1680
    || (0x2000 ≤ n && n ≤ 0x200A) || n == 0x2028 || n == 0x2029 || n == 0x202F || n == 0x205F
    || n == 0x3000

def trimEnd (text : List Char) : List Char :=
  (text.reverse.dropWhile isBlank).reverse

def dropReturn (line : List Char) : List Char :=
  match line.getLast? with
  | some '\r' => line.dropLast
  | _ => line

def linesFrom (acc : List Char) : List Char → List (List Char)
  | [] => if acc.isEmpty then [] else [acc]
  | '\n' :: rest => dropReturn acc :: linesFrom [] rest
  | c :: rest => linesFrom (acc ++ [c]) rest

def textLines (text : String) : List (List Char) :=
  linesFrom [] text.toList

end Scenograph
