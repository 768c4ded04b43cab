import EcmaScribe.Command.LogFormat
import EcmaScribe.Interchange.Settings
import EcmaScribe.Main
import EcmaScribe.Proofs.CallSpine
import EcmaScribe.Proofs.CommaLists
import EcmaScribe.Proofs.Conservative
import EcmaScribe.Proofs.DanglingElse
import EcmaScribe.Proofs.DirectiveText
import EcmaScribe.Proofs.Directives
import EcmaScribe.Proofs.Expression.Operation
import EcmaScribe.Proofs.Fragment.Blank
import EcmaScribe.Proofs.Layout.Written
import EcmaScribe.Proofs.LineBreaks
import EcmaScribe.Proofs.Lookahead
import EcmaScribe.Proofs.LoopHeads
import EcmaScribe.Proofs.Lossless
import EcmaScribe.Proofs.NumericMembers
import EcmaScribe.Proofs.PropertyKeys
import EcmaScribe.Proofs.ReferenceGroups
import EcmaScribe.Proofs.ReferenceOrder
import EcmaScribe.Proofs.SafeNames
import EcmaScribe.Proofs.Separation
import EcmaScribe.Proofs.TemplateText
import EcmaScribe.Proofs.Text.Contract
import EcmaScribe.Proofs.Text.Verbatim
import EcmaScribe.Proofs.WebSafe
import EcmaScribe.Proofs.WordSeparation
import EcmaScribe.Tree.Build
