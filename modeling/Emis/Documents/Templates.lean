import Emis.Documents.Html

/-!
# What the documents look like

`modules/documents/domain/templates.ts`.
-/

namespace Emis.Documents

/-- Who is printing: shown at the top of every document. -/
structure Letterhead where
  name : Str
  address : Option Str
  phone : Option Str
  color : Str

def FONT : String := "'Noto Sans', 'Noto Sans Ethiopic', 'Liberation Sans', Arial, sans-serif"

/-- A complete page; `size` is a CSS @page size. -/
def page (title : Str) (size : String) (css : Str) (body : Raw) : Str :=
  (markup
    ["<!doctype html>\n<html><head><meta charset=\"utf-8\"><title>",
     "</title>\n<style>\n@page \x7b size: ",
     "; margin: 0 \x7d\n" ++
       "* \x7b box-sizing: border-box \x7d\n" ++
       "html, body \x7b margin: 0; padding: 0; font-family: ",
     "; color: #111; overflow: hidden \x7d\n",
     "\n</style></head><body>",
     "</body></html>"]
    [.string title, .raw (raw size.toList), .raw (raw FONT.toList), .raw (raw css), .raw body]).value

/-- A string that is there, which is one that is not empty. -/
def present (s : Option Str) : Option Str := s.filter fun s => !s.isEmpty

def contact (l : Letterhead) : Str := " · ".toList.intercalate ([l.address, l.phone].filterMap present)

/-! ## Receipts -/

inductive ReceiptState where
  | posted
  | void
  deriving DecidableEq, Repr

structure AllocationData where
  label : Str
  amountText : Str

structure ReceiptData where
  letterhead : Letterhead
  receiptNumber : Str
  date : Str
  studentName : Str
  invoiceNumber : Str
  method : Str
  reference : Option Str
  amountText : Str
  allocations : List AllocationData
  status : ReceiptState
  voidedOn : Option Str

/-- `raw(rows.map(… .value).join(''))`. -/
def rawRows {α : Type} (row : α → Raw) (rows : List α) : Raw := raw (rows.flatMap fun r => (row r).value)

def receiptRow (r : String × Str) : Raw :=
  markup ["<tr><th>", "</th><td>", "</td></tr>"] [.string r.1.toList, .string r.2]

def receiptRows (d : ReceiptData) : Raw :=
  rawRows receiptRow
    [("Receipt no.", d.receiptNumber),
     ("Date", d.date),
     ("Received from", d.studentName),
     ("For invoice", d.invoiceNumber),
     ("Method", match present d.reference with
      | some reference => template ["", " · ", ""] [d.method, reference]
      | none => d.method)]

def allocationA5 (a : AllocationData) : Raw :=
  markup ["<tr><td>", "</td><td class=\"r\">", "</td></tr>"] [.string a.label, .string a.amountText]

def cssA5 (color : Str) : Str :=
  template
    ["\n" ++
       ".sheet \x7b width: 148mm; height: 210mm; padding: 14mm 12mm; position: relative; overflow: " ++
       "hidden \x7d\n" ++
       "h1 \x7b margin: 0; font-size: 17pt; text-align: center; color: ",
     " \x7d\n" ++
       ".sub \x7b text-align: center; color: #555; font-size: 9pt; margin: 1mm 0 0 \x7d\n" ++
       ".title \x7b text-align: center; letter-spacing: .25em; text-transform: uppercase; " ++
       "font-size: 9pt; color: #444; margin: 8mm 0 6mm \x7d\n" ++
       "table \x7b width: 100%; border-collapse: collapse \x7d\n" ++
       "th \x7b text-align: left; font-weight: 500; color: #555; width: 34mm; padding: 1.6mm 0; " ++
       "font-size: 10pt \x7d\n" ++
       "td \x7b padding: 1.6mm 0; font-size: 10.5pt \x7d\n" ++
       "td.r \x7b text-align: right \x7d\n" ++
       ".total \x7b display: flex; justify-content: space-between; align-items: baseline; " ++
       "border-top: 1px solid #999; border-bottom: 1px solid #999; margin: 6mm 0 4mm; padding: 4mm " ++
       "0 \x7d\n" ++
       ".total span:first-child \x7b color: #555; font-size: 10pt \x7d\n" ++
       ".total span:last-child \x7b font-size: 19pt; font-weight: 700 \x7d\n" ++
       ".alloc \x7b font-size: 9pt; color: #444 \x7d\n" ++
       ".alloc caption \x7b text-align: left; color: #555; padding-bottom: 1mm \x7d\n" ++
       ".void \x7b position: absolute; top: 60mm; left: 22mm; transform: rotate(-24deg); font-size: " ++
       "54pt; font-weight: 800; color: rgba(200,30,30,.35); border: 3mm solid rgba(200,30,30,.35); " ++
       "padding: 0 6mm; letter-spacing: .1em \x7d\n" ++
       ".note \x7b margin-top: 6mm; font-size: 9pt; color: #a11 \x7d\n" ++
       ".foot \x7b position: absolute; bottom: 12mm; left: 12mm; right: 12mm; text-align: center; " ++
       "font-size: 8pt; color: #777 \x7d\n"]
    [color]

/-- A5 portrait receipt for the front desk to print and hand over. -/
def receiptA5 (d : ReceiptData) : Str :=
  let color := safeColor d.letterhead.color
  let allocations := rawRows allocationA5 d.allocations
  page (template ["Receipt ", ""] [d.receiptNumber]) "A5" (cssA5 color)
    (markup
      ["<div class=\"sheet\">\n",
       "\n<h1>",
       "</h1>\n<p class=\"sub\">",
       "</p>\n<div class=\"title\">Payment receipt</div>\n<table>",
       "</table>\n<div class=\"total\"><span>Amount received</span><span>",
       "</span></div>\n<table class=\"alloc\"><caption>Applied to</caption>",
       "</table>\n",
       "\n<div class=\"foot\">Thank you</div>\n</div>"]
      [if d.status = .void then .raw (markup ["<div class=\"void\">VOID</div>"] []) else .string [],
       .string d.letterhead.name,
       .string (contact d.letterhead),
       .raw (receiptRows d),
       .string d.amountText,
       .raw allocations,
       if d.status = .void then
         .raw (markup ["<p class=\"note\">This receipt was voided", " and is no longer valid proof of payment.</p>"]
           [.string (match present d.voidedOn with
             | some voidedOn => template [" on ", ""] [voidedOn]
             | none => [])])
       else .string []])

def lineThermal (label value : Str) : Raw :=
  markup ["<div class=\"line\"><span>", "</span><span>", "</span></div>"] [.string label, .string value]

def cssThermal : Str :=
  template
    ["\n.paper \x7b width: 80mm; height: 190mm; padding: 5mm 4mm; font-size: 9.5pt; overflow: " ++
       "hidden \x7d\n" ++
       "h1 \x7b font-size: 12pt; text-align: center; margin: 0 \x7d\n" ++
       ".sub \x7b text-align: center; font-size: 8pt; margin: 1mm 0 3mm \x7d\n" ++
       ".rule \x7b border-top: 1px dashed #000; margin: 2.5mm 0 \x7d\n" ++
       ".line \x7b display: flex; justify-content: space-between; gap: 3mm; padding: .6mm 0 \x7d\n" ++
       ".line span:last-child \x7b text-align: right; word-break: break-all \x7d\n" ++
       ".big \x7b font-size: 13pt; font-weight: 700 \x7d\n" ++
       ".center \x7b text-align: center \x7d\n"]
    []

/-- 80 mm thermal-printer receipt (narrow, one column). -/
def receiptThermal (d : ReceiptData) : Str :=
  let lines := rawRows (fun r : String × Str => lineThermal r.1.toList r.2)
    [("Receipt", d.receiptNumber),
     ("Date", d.date),
     ("From", d.studentName),
     ("Invoice", d.invoiceNumber),
     ("Method", match present d.reference with
      | some reference => template ["", " ", ""] [d.method, reference]
      | none => d.method)]
  let allocations := rawRows (fun a : AllocationData => lineThermal a.label a.amountText) d.allocations
  page (template ["Receipt ", ""] [d.receiptNumber]) "80mm 190mm" cssThermal
    (markup
      ["<div class=\"paper\">\n<h1>",
       "</h1>\n<div class=\"sub\">",
       "</div>\n<div class=\"center\">PAYMENT RECEIPT",
       "</div>\n<div class=\"rule\"></div>\n",
       "\n<div class=\"rule\"></div>\n<div class=\"line big\"><span>TOTAL</span><span>",
       "</span></div>\n<div class=\"rule\"></div>\n",
       "\n<div class=\"rule\"></div>\n<div class=\"center\">",
       "</div>\n</div>"]
      [.string d.letterhead.name,
       .string (contact d.letterhead),
       .string (if d.status = .void then " - VOID".toList else []),
       .raw lines,
       .string d.amountText,
       .raw allocations,
       .string (if d.status = .void then "NOT VALID - VOIDED".toList else "Thank you".toList)])

/-! ## Student ID card -/

inductive CardState where
  | active
  | expired
  | revoked
  deriving DecidableEq, Repr

structure StudentCardData where
  letterhead : Letterhead
  studentName : Str
  studentNumber : Str
  validUntil : Str
  status : CardState
  qr : Raw
  verifyUrl : Str

/-- The first letters of the first two words, in upper case. -/
def initials (upper : Str → Str) (studentName : Str) : Str :=
  let words := (studentName.splitOnP Numbering.isBlank).filter fun w => !w.isEmpty
  upper ((words.take 2).filterMap List.head?)

def cssCard (color : Str) : Str :=
  template
    ["\n" ++
       ".card \x7b width: 85.6mm; height: 54mm; position: relative; overflow: hidden; background: " ++
       "#fff \x7d\n" ++
       ".band \x7b background: ",
     "; color: #fff; height: 11mm; padding: 0 4mm; display: flex; align-items: center; " ++
       "font-weight: 700; font-size: 9pt; letter-spacing: .04em \x7d\n" ++
       ".photo \x7b position: absolute; left: 4mm; top: 15mm; width: 20mm; height: 25mm; background: ",
     "22; border: .3mm solid ",
     "; display: flex; align-items: center; justify-content: center; font-size: 20pt; " ++
       "font-weight: 700; color: ",
     " \x7d\n" ++
       ".who \x7b position: absolute; left: 27mm; top: 15mm; right: 4mm \x7d\n" ++
       ".who .name \x7b font-size: 11pt; font-weight: 700; line-height: 1.15; max-height: 13mm; " ++
       "overflow: hidden \x7d\n" ++
       ".who .role \x7b font-size: 7pt; color: #555; text-transform: uppercase; letter-spacing: " ++
       ".12em; margin-top: 1mm \x7d\n" ++
       ".who .num \x7b font-family: 'Liberation Mono', monospace; font-size: 9pt; margin-top: 2.5mm " ++
       "\x7d\n" ++
       ".qr \x7b position: absolute; right: 3mm; bottom: 3mm; width: 17mm; height: 17mm \x7d\n" ++
       ".qr svg \x7b width: 100%; height: 100% \x7d\n" ++
       ".valid \x7b position: absolute; left: 4mm; bottom: 3.5mm; font-size: 7pt; color: #444 \x7d\n" ++
       ".stamp \x7b position: absolute; left: 4mm; bottom: 8mm; font-size: 8pt; font-weight: 800; " ++
       "color: #b00; letter-spacing: .1em \x7d\n"]
    [color, color, color, color]

/-- CR80 (85.6 × 54 mm) student ID, front side. -/
def studentCard (upper : Str → Str) (d : StudentCardData) : Str :=
  let color := safeColor d.letterhead.color
  page (template ["ID ", ""] [d.studentNumber]) "85.6mm 54mm" (cssCard color)
    (markup
      ["<div class=\"card\">\n<div class=\"band\">",
       "</div>\n<div class=\"photo\">",
       "</div>\n<div class=\"who\"><div class=\"name\">",
       "</div><div class=\"role\">Student</div><div class=\"num\">",
       "</div></div>\n",
       "\n<div class=\"valid\">Valid until ",
       "</div>\n<div class=\"qr\">",
       "</div>\n</div>"]
      [.string d.letterhead.name,
       .string (initials upper d.studentName),
       .string d.studentName,
       .string d.studentNumber,
       if d.status = .active then .string []
       else .raw (markup ["<div class=\"stamp\">", "</div>"]
         [.string (if d.status = .revoked then "REVOKED".toList else "EXPIRED".toList)]),
       .string d.validUntil,
       .raw d.qr])

/-! ## Certificate -/

inductive CertificateState where
  | issued
  | revoked
  deriving DecidableEq, Repr

structure CertificateData where
  letterhead : Letterhead
  studentName : Str
  courseName : Str
  completedOn : Str
  serial : Str
  status : CertificateState
  qr : Raw
  verifyUrl : Str

def cssCertificate (color : Str) : Str :=
  template
    ["\n" ++
       ".cert \x7b width: 297mm; height: 210mm; padding: 12mm; position: relative; overflow: hidden " ++
       "\x7d\n" ++
       ".frame \x7b height: 100%; border: 2.5mm double ",
     "; padding: 14mm 20mm; text-align: center; position: relative \x7d\n" ++
       ".org \x7b font-size: 20pt; font-weight: 700; color: ",
     "; letter-spacing: .04em \x7d\n" ++
       ".contact \x7b font-size: 9pt; color: #666; margin-top: 1mm \x7d\n" ++
       ".kicker \x7b margin-top: 14mm; font-size: 26pt; letter-spacing: .18em; text-transform: " ++
       "uppercase; color: #333 \x7d\n" ++
       ".line \x7b margin-top: 9mm; font-size: 12pt; color: #555 \x7d\n" ++
       ".name \x7b margin-top: 4mm; font-size: 34pt; font-weight: 700; color: #111; border-bottom: " ++
       ".4mm solid ",
     "; display: inline-block; padding: 0 12mm 1.5mm; max-width: 230mm; overflow: hidden \x7d\n" ++
       ".course \x7b margin-top: 4mm; font-size: 21pt; font-weight: 600; color: ",
     " \x7d\n" ++
       ".date \x7b margin-top: 7mm; font-size: 12pt; color: #444 \x7d\n" ++
       ".bottom \x7b position: absolute; left: 20mm; right: 20mm; bottom: 12mm; display: flex; " ++
       "justify-content: space-between; align-items: flex-end; text-align: left \x7d\n" ++
       ".serial \x7b font-size: 9pt; color: #555; line-height: 1.6 \x7d\n" ++
       ".serial b \x7b font-family: 'Liberation Mono', monospace; color: #111 \x7d\n" ++
       ".qr \x7b width: 26mm; height: 26mm \x7d\n" ++
       ".qr svg \x7b width: 100%; height: 100% \x7d\n" ++
       ".revoked \x7b position: absolute; top: 78mm; left: 50mm; transform: rotate(-14deg); " ++
       "font-size: 70pt; font-weight: 800; color: rgba(200,30,30,.3); border: 4mm solid " ++
       "rgba(200,30,30,.3); padding: 0 10mm; letter-spacing: .1em \x7d\n"]
    [color, color, color, color]

/-- A4 landscape certificate of completion with a QR code anyone can scan to verify it. -/
def certificate (d : CertificateData) : Str :=
  let color := safeColor d.letterhead.color
  page (template ["Certificate ", ""] [d.serial]) "A4 landscape" (cssCertificate color)
    (markup
      ["<div class=\"cert\"><div class=\"frame\">\n",
       "\n<div class=\"org\">",
       "</div>\n<div class=\"contact\">",
       "</div>\n" ++
         "<div class=\"kicker\">Certificate of Completion</div>\n" ++
         "<div class=\"line\">This certifies that</div>\n" ++
         "<div class=\"name\">",
       "</div>\n<div class=\"line\">has successfully completed</div>\n<div class=\"course\">",
       "</div>\n<div class=\"date\">on ",
       "</div>\n<div class=\"bottom\">\n<div class=\"serial\">Certificate no. <b>",
       "</b><br>Verify this certificate by scanning the code<br>or visiting ",
       "</div>\n<div class=\"qr\">",
       "</div>\n</div>\n</div></div>"]
      [if d.status = .revoked then .raw (markup ["<div class=\"revoked\">REVOKED</div>"] []) else .string [],
       .string d.letterhead.name,
       .string (contact d.letterhead),
       .string d.studentName,
       .string d.courseName,
       .string d.completedOn,
       .string d.serial,
       .string d.verifyUrl,
       .raw d.qr])

end Emis.Documents
