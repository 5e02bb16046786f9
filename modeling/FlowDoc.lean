import FlowDoc.Main
import FlowDoc.Files.Tree
import FlowDoc.Proofs.Bag.Decoding
import FlowDoc.Proofs.Batch.Accounting
import FlowDoc.Proofs.Batch.Listing
import FlowDoc.Proofs.Descriptions
import FlowDoc.Proofs.Payload.Entries
import FlowDoc.Proofs.Payload.Printing
import FlowDoc.Proofs.Render.Flowchart
import FlowDoc.Proofs.Script.Concatenation
import FlowDoc.Proofs.Script.LineEndings
import FlowDoc.Proofs.Script.Order
import FlowDoc.Proofs.Script.Outcome
import FlowDoc.Proofs.Script.Printing
import FlowDoc.Proofs.Script.Streams
import FlowDoc.Proofs.Script.Warnings
import FlowDoc.Proofs.Script.WellFormedness
import FlowDoc.Proofs.Json.Scalars
import FlowDoc.Proofs.Json.Layout
import FlowDoc.Proofs.Json.Decoding
import FlowDoc.Proofs.Graph.Json
import FlowDoc.Proofs.Render.Anchors
import FlowDoc.Proofs.Render.Markup
import FlowDoc.Proofs.Render.Page
import FlowDoc.Proofs.Render.Summary
import FlowDoc.Proofs.Payload.Reparsing
import FlowDoc.Proofs.Batch.Confinement
import FlowDoc.Proofs.Document
import FlowDoc.Proofs.Render.Filling
import FlowDoc.Proofs.Script.Expressions
import FlowDoc.Proofs.Graph.Words
import FlowDoc.Proofs.Render.Overflow
